import Storyboard.Proofs.Number.Words

/-!
# Rounded ratios

Rounding takes a ratio to the nearest count of 53 significant bits. It sees the ratio only, not the
terms that it is written in (`roundRatio_congr`), and a ratio with a full significand is rounded in
the same way in every unit that is a power of two (`roundRatio_mul_two_pow`): the significand stays
and the place of the leading bit moves. So what two roundings do to a number of the format is a
statement about whole numbers of a fixed size. The rounded ratio is at most half a step away from
the ratio (`roundRatio_near`).
-/

set_option autoImplicit false

namespace Storyboard

/-- A ratio in larger terms has the same nearest whole number. -/
theorem nearestEven_mul_mul {scale : Nat} (positive : 0 < scale) (numerator denominator : Nat) :
    nearestEven (numerator * scale) (denominator * scale) = nearestEven numerator denominator := by
  have quotient : numerator * scale / (denominator * scale) = numerator / denominator :=
    Nat.mul_div_mul_right _ _ positive
  have remainder : numerator * scale % (denominator * scale) = numerator % denominator * scale :=
    Nat.mul_mod_mul_right _ _ _
  have below : 2 * (numerator % denominator * scale) < denominator * scale ↔
      2 * (numerator % denominator) < denominator := by
    rw [← Nat.mul_assoc]
    exact Nat.mul_lt_mul_right positive
  have above : denominator * scale < 2 * (numerator % denominator * scale) ↔
      denominator < 2 * (numerator % denominator) := by
    rw [← Nat.mul_assoc]
    exact Nat.mul_lt_mul_right positive
  simp only [nearestEven, quotient, remainder, below, above]

/-- Rounding sees a ratio, whatever its terms are. -/
theorem roundRatio_mul_mul {scale : Nat} (positive : 0 < scale) (numerator denominator : Nat) :
    roundRatio (numerator * scale) (denominator * scale) = roundRatio numerator denominator := by
  simp only [roundRatio, Nat.mul_div_mul_right _ _ positive]
  rw [Nat.mul_right_comm, nearestEven_mul_mul positive]

theorem roundRatio_congr {first second divisor denominator : Nat} (positive : 0 < divisor)
    (other : 0 < denominator) (same : first * denominator = second * divisor) :
    roundRatio first divisor = roundRatio second denominator := by
  rw [← roundRatio_mul_mul other first divisor, same, Nat.mul_comm divisor denominator,
    roundRatio_mul_mul positive]

/-- Moving a ratio up by binary places moves its leading bit. -/
theorem log2_mul_two_pow_div {numerator denominator : Nat} (filled : 0 < numerator / denominator)
    (places : Nat) :
    Nat.log2 (numerator * 2 ^ places / denominator) =
      Nat.log2 (numerator / denominator) + places := by
  have positive : 0 < denominator := Nat.pos_of_ne_zero fun zero => by simp [zero] at filled
  have low := Nat.log2_self_le (Nat.ne_of_gt filled)
  have high : numerator / denominator < 2 ^ (Nat.log2 (numerator / denominator) + 1) :=
    Nat.lt_log2_self
  generalize Nat.log2 (numerator / denominator) = places' at low high ⊢
  have lower : 2 ^ (places' + places) ≤ numerator * 2 ^ places / denominator := by
    rw [Nat.le_div_iff_mul_le positive] at low ⊢
    rw [Nat.pow_add, Nat.mul_right_comm]
    exact Nat.mul_le_mul_right _ low
  have upper : numerator * 2 ^ places / denominator < 2 ^ (places' + places + 1) := by
    rw [Nat.div_lt_iff_lt_mul positive] at high ⊢
    rw [Nat.add_right_comm, Nat.pow_add, Nat.mul_right_comm]
    exact Nat.mul_lt_mul_of_pos_right high (Nat.two_pow_pos places)
  have nonzero : numerator * 2 ^ places / denominator ≠ 0 :=
    Nat.ne_of_gt (Nat.lt_of_lt_of_le (Nat.two_pow_pos _) lower)
  exact (Nat.log2_eq_iff nonzero).2 ⟨lower, upper⟩

/-- A ratio with a full significand can be rounded in any unit. -/
theorem roundRatio_mul_two_pow {numerator denominator : Nat}
    (full : 2 ^ (52 : Nat) ≤ numerator / denominator) (places : Nat) :
    roundRatio (numerator * 2 ^ places) denominator =
      roundRatio numerator denominator * 2 ^ places := by
  have filled : 0 < numerator / denominator := Nat.lt_of_lt_of_le (by decide) full
  have leading : 52 ≤ Nat.log2 (numerator / denominator) :=
    (Nat.le_log2 (Nat.ne_of_gt filled)).2 full
  have spare : spareBits (numerator * 2 ^ places / denominator) =
      spareBits (numerator / denominator) + places := by
    unfold spareBits
    rw [log2_mul_two_pow_div filled]
    omega
  simp only [roundRatio, spare]
  rw [Nat.pow_add, ← Nat.mul_assoc denominator, nearestEven_mul_mul (Nat.two_pow_pos places),
    Nat.mul_assoc]

/-- The nearest whole number is at most half a denominator away. -/
theorem nearestEven_near {denominator : Nat} (positive : 0 < denominator) (numerator : Nat) :
    2 * numerator ≤ 2 * (nearestEven numerator denominator * denominator) + denominator ∧
      2 * (nearestEven numerator denominator * denominator) ≤ 2 * numerator + denominator := by
  have parted := Nat.div_add_mod numerator denominator
  have below := Nat.mod_lt numerator positive
  rw [Nat.mul_comm] at parted
  have next : (numerator / denominator + 1) * denominator =
      numerator / denominator * denominator + denominator := Nat.succ_mul _ _
  simp only [nearestEven]
  split
  · omega
  · split
    · rw [next]
      omega
    · split
      · omega
      · rw [next]
        omega

/-- A rounded ratio is at most half a step away. -/
theorem roundRatio_near {denominator : Nat} (positive : 0 < denominator) (numerator : Nat) :
    2 * numerator ≤ 2 * (roundRatio numerator denominator * denominator) +
        denominator * 2 ^ spareBits (numerator / denominator) ∧
      2 * (roundRatio numerator denominator * denominator) ≤
        2 * numerator + denominator * 2 ^ spareBits (numerator / denominator) := by
  have near := nearestEven_near
    (Nat.mul_pos positive (Nat.two_pow_pos (spareBits (numerator / denominator)))) numerator
  have same : ∀ whole step : Nat, whole * step * denominator = whole * (denominator * step) :=
    fun whole step => by rw [Nat.mul_assoc, Nat.mul_comm step]
  simp only [roundRatio, same]
  exact near

namespace Binary64

/-- Rounding within the range gives the rounded count of units. -/
theorem round_of_small (negative : Bool) {numerator denominator : Nat}
    (small : 2 * (numerator / denominator) + 1 < overflowUnits) :
    ∃ held, round negative numerator denominator =
      finite negative (roundRatio numerator denominator) held :=
  ⟨_, dif_pos (Nat.lt_of_le_of_lt (roundRatio_le numerator denominator) small)⟩

theorem round_congr {first second divisor denominator : Nat} (negative : Bool) (positive : 0 < divisor)
    (other : 0 < denominator) (same : first * denominator = second * divisor) :
    round negative first divisor = round negative second denominator := by
  simp only [round, roundRatio_congr positive other same]

/-- A count below `2 ^ 53` is a number of the format. -/
theorem ofNat_of_lt {count : Nat} (small : count < 2 ^ (53 : Nat)) :
    ∃ held, ofNat count = finite false (count * unitsPerOne) held := by
  have precise : Precise (count * unitsPerOne) := by
    unfold unitsPerOne
    exact precise_mul_pow (Nat.le_of_lt small) unitPlaces
  have fits := units_of_word_lt (Nat.lt_trans small (show 2 ^ (53 : Nat) < wordBound by decide))
  exact ⟨⟨precise, by omega⟩, round_of_representable false ⟨precise, by omega⟩⟩

theorem ofNat_inj {first second : Nat} (small : first < 2 ^ (53 : Nat))
    (other : second < 2 ^ (53 : Nat)) : ofNat first = ofNat second ↔ first = second := by
  refine ⟨fun same => ?_, congrArg ofNat⟩
  obtain ⟨_, shape⟩ := ofNat_of_lt small
  obtain ⟨_, shape'⟩ := ofNat_of_lt other
  rw [shape, shape'] at same
  injection same with _ units
  exact Nat.eq_of_mul_eq_mul_right unitsPerOne_pos units

theorem not_ofNat_lt_zero {count : Nat} (small : count < 2 ^ (53 : Nat)) : ¬ofNat count < 0 := by
  obtain ⟨_, shape⟩ := ofNat_of_lt small
  rw [shape]
  intro below
  have signs : ((count * unitsPerOne : Nat) : Int) < 0 := of_decide_eq_true below
  omega

end Binary64

end Storyboard
