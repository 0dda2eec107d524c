import Mathlib.Algebra.Order.Field.Basic
import Mathlib.Data.Nat.Cast.Order.Field
import Storyboard.Proofs.Number.Lawful
import Storyboard.Proofs.Number.Ratios

/-!
# Shares of a whole

A whole that is cut into equal parts has a share for each count of them. The shares go from zero to
one, and of two counts the smaller has the smaller share (`DividesEvenly`). Exact numbers divide
into any number of parts.

The numbers that a program runs with divide evenly as long as the number of parts is below
`2 ^ 53`: two shares are then further apart than two roundings can move them
(`Binary64.roundRatio_share_lt`). With more parts there would be more shares than numbers of the
format just below one.
-/

set_option autoImplicit false

namespace Storyboard

/-- The shares of a whole in so many parts go from zero to one, and they are all different. -/
structure DividesEvenly (ν : Type) [Scalar ν] (parts : Nat) : Prop where
  first : (Scalar.ofCount 0 / Scalar.ofCount parts : ν) = 0
  last : (Scalar.ofCount parts / Scalar.ofCount parts : ν) = 1
  apart {fewer more : Nat} : fewer < more → more ≤ parts →
    (Scalar.ofCount fewer / Scalar.ofCount parts : ν) < Scalar.ofCount more / Scalar.ofCount parts

/-- Exact numbers divide into any number of parts. -/
theorem dividesEvenly_exact {parts : Nat} (positive : 0 < parts) : DividesEvenly Rat parts where
  first := by
    change ((0 : Nat) : Rat) / (parts : Rat) = 0
    rw [Nat.cast_zero, zero_div]
  last := div_self (Nat.cast_ne_zero.2 (Nat.ne_of_gt positive))
  apart fewer _ := div_lt_div_of_pos_right (Nat.cast_lt.2 fewer) (Nat.cast_pos.2 positive)

namespace Binary64

/-- Below one, a step of the format is a small part of one. -/
theorem two_pow_spareBits_le {units : Nat} (below : units < unitsPerOne) :
    2 ^ (53 : Nat) * 2 ^ spareBits units ≤ unitsPerOne := by
  unfold unitsPerOne at below ⊢
  have spare : 53 + spareBits units ≤ unitPlaces := by
    unfold spareBits
    by_cases zero : units = 0
    · subst zero
      decide
    · have leading : Nat.log2 units < unitPlaces := (Nat.log2_lt zero).2 below
      unfold unitPlaces at leading ⊢
      omega
  rw [← Nat.pow_add]
  exact Nat.pow_le_pow_right (by decide) spare

variable {parts : Nat}

/-- The quotient of two counts is their rounded ratio. -/
theorem div_ofNat (positive : 0 < parts) (small : parts < 2 ^ (53 : Nat)) {count : Nat}
    (within : count ≤ parts) :
    ∃ held, ofNat count / ofNat parts =
      finite false (roundRatio (count * unitsPerOne) parts) held := by
  obtain ⟨_, shape⟩ := ofNat_of_lt (Nat.lt_of_le_of_lt within small)
  obtain ⟨_, shape'⟩ := ofNat_of_lt small
  have nonzero : parts * unitsPerOne ≠ 0 :=
    Nat.ne_of_gt (Nat.mul_pos positive unitsPerOne_pos)
  have quotient : ofNat count / ofNat parts =
      round false (count * unitsPerOne * unitsPerOne) (parts * unitsPerOne) := by
    rw [shape, shape']
    exact if_neg nonzero
  have reduced : round false (count * unitsPerOne * unitsPerOne) (parts * unitsPerOne) =
      round false (count * unitsPerOne) parts :=
    round_congr false (Nat.pos_of_ne_zero nonzero) positive (by ac_rfl)
  have share : count * unitsPerOne / parts ≤ unitsPerOne :=
    Nat.div_le_of_le_mul (Nat.mul_le_mul_right _ within)
  have fits := units_of_word_lt (show 1 < wordBound by decide)
  rw [quotient, reduced]
  exact round_of_small false (by omega)

/-- The share of all parts is one. -/
theorem roundRatio_whole (positive : 0 < parts) :
    roundRatio (parts * unitsPerOne) parts = unitsPerOne := by
  have reduced : roundRatio (parts * unitsPerOne) parts = roundRatio unitsPerOne 1 :=
    roundRatio_congr positive Nat.one_pos (by ac_rfl)
  have precise : Precise unitsPerOne := by
    unfold unitsPerOne
    exact Nat.one_mul (2 ^ unitPlaces) ▸ precise_mul_pow (by decide) unitPlaces
  rw [reduced, roundRatio_of_precise precise]

/-- Rounding moves a share by less than half of the distance between two shares. -/
theorem roundRatio_share_near (small : parts < 2 ^ (53 : Nat)) {count : Nat}
    (below : count < parts) :
    2 * (count * unitsPerOne) < 2 * (roundRatio (count * unitsPerOne) parts * parts) + unitsPerOne ∧
      2 * (roundRatio (count * unitsPerOne) parts * parts) <
        2 * (count * unitsPerOne) + unitsPerOne := by
  have positive : 0 < parts := Nat.lt_of_le_of_lt (Nat.zero_le _) below
  have share : count * unitsPerOne / parts < unitsPerOne :=
    (Nat.div_lt_iff_lt_mul positive).2
      (Nat.mul_comm parts unitsPerOne ▸ Nat.mul_lt_mul_of_pos_right below unitsPerOne_pos)
  have step : parts * 2 ^ spareBits (count * unitsPerOne / parts) < unitsPerOne :=
    Nat.lt_of_lt_of_le (Nat.mul_lt_mul_of_pos_right small (Nat.two_pow_pos _))
      (two_pow_spareBits_le share)
  have near := roundRatio_near positive (count * unitsPerOne)
  omega

/-- Fewer parts have a smaller share. -/
theorem roundRatio_share_lt (small : parts < 2 ^ (53 : Nat)) {fewer more : Nat}
    (less : fewer < more) (within : more ≤ parts) :
    roundRatio (fewer * unitsPerOne) parts < roundRatio (more * unitsPerOne) parts := by
  have distance : fewer * unitsPerOne + unitsPerOne ≤ more * unitsPerOne :=
    Nat.succ_mul fewer unitsPerOne ▸ Nat.mul_le_mul_right unitsPerOne less
  have positive := unitsPerOne_pos
  have lower := (roundRatio_share_near small (Nat.lt_of_lt_of_le less within)).2
  have upper : 2 * (more * unitsPerOne) <
      2 * (roundRatio (more * unitsPerOne) parts * parts) + unitsPerOne := by
    rcases Nat.lt_or_eq_of_le within with below | rfl
    · exact (roundRatio_share_near small below).1
    · rw [roundRatio_whole (Nat.lt_of_le_of_lt (Nat.zero_le _) less), Nat.mul_comm more]
      omega
  exact Nat.lt_of_mul_lt_mul_right (a := parts) (by omega)

/-- The numbers a program runs with divide evenly into fewer than `2 ^ 53` parts. -/
theorem dividesEvenly (positive : 0 < parts) (small : parts < 2 ^ (53 : Nat)) :
    DividesEvenly Binary64 parts where
  first := by
    obtain ⟨_, shape⟩ := div_ofNat positive small (Nat.zero_le parts)
    have none : roundRatio (0 * unitsPerOne) parts = 0 := by
      simp [roundRatio, nearestEven, Nat.zero_div]
    exact shape.trans ((finite.injEq ..).mpr ⟨rfl, none⟩)
  last := by
    obtain ⟨_, shape⟩ := div_ofNat positive small (Nat.le_refl parts)
    obtain ⟨_, one⟩ := ofNat_of_lt (show 1 < 2 ^ (53 : Nat) by decide)
    have whole : roundRatio (parts * unitsPerOne) parts = 1 * unitsPerOne := by
      rw [roundRatio_whole positive, Nat.one_mul]
    exact shape.trans (((finite.injEq ..).mpr ⟨rfl, whole⟩).trans one.symm)
  apart fewer within := by
    obtain ⟨_, shape⟩ := div_ofNat positive small (Nat.le_of_lt (Nat.lt_of_lt_of_le fewer within))
    obtain ⟨_, shape'⟩ := div_ofNat positive small within
    have apart := roundRatio_share_lt small fewer within
    change Binary64.less (ofNat _ / ofNat parts) (ofNat _ / ofNat parts) = true
    rw [shape, shape']
    exact decide_eq_true (Int.ofNat_lt.2 apart)

end Binary64

end Storyboard
