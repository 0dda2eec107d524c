import Storyboard.Number.Scalar
import Storyboard.Proofs.Json.Literals

/-!
# Whole numbers of one word

A whole number that fits into 64 bits has a literal in range (`Binary64.ofLiteral?_ofNat_isSome`):
all of its digits are taken, and the number next to it is far below the overflow bound.
-/

set_option autoImplicit false

namespace Storyboard

namespace Binary64

/-- Rounding at most doubles a ratio, the first unit aside. -/
theorem roundRatio_le (numerator denominator : Nat) :
    roundRatio numerator denominator ≤ 2 * (numerator / denominator) + 1 := by
  have near := nearestEven_le numerator (denominator * 2 ^ spareBits (numerator / denominator))
  rw [← Nat.div_div_eq_div_mul] at near
  unfold roundRatio
  generalize numerator / denominator = quotient at near ⊢
  have step : 2 ^ spareBits quotient ≤ quotient + 1 := by
    by_cases zero : quotient = 0
    · subst zero
      decide
    · have below : 2 ^ Nat.log2 quotient ≤ quotient := Nat.log2_self_le zero
      have fewer : 2 ^ spareBits quotient ≤ 2 ^ Nat.log2 quotient :=
        Nat.pow_le_pow_right (by decide) (Nat.sub_le _ _)
      omega
  have whole : quotient / 2 ^ spareBits quotient * 2 ^ spareBits quotient ≤ quotient :=
    Nat.div_mul_le_self _ _
  refine Nat.le_trans (Nat.mul_le_mul_right _ near) ?_
  rw [Nat.add_mul, Nat.one_mul]
  omega

/-- A ratio below half of the overflow bound rounds to a finite number that is not larger than
twice the ratio, the first unit aside. -/
theorem round_eq_finite (negative : Bool) {numerator denominator : Nat}
    (small : 2 * (numerator / denominator) + 1 < overflowUnits) :
    ∃ units held, round negative numerator denominator = .finite negative units held ∧
      units ≤ 2 * (numerator / denominator) + 1 := by
  have close := roundRatio_le numerator denominator
  exact ⟨_, _, dif_pos (Nat.lt_of_le_of_lt close small), close⟩

/-- All digits of a whole number that fits into a word are taken. -/
theorem leadingDigits_of_lt (row : List Digit) (number : Nat)
    (fits : row.foldl (fun number digit => 10 * number + digit.val) number < wordBound) :
    leadingDigits number row =
      (row.foldl (fun number digit => 10 * number + digit.val) number, 0) := by
  have grows : ∀ (row : List Digit) (number : Nat),
      number ≤ row.foldl (fun number digit => 10 * number + digit.val) number := by
    intro row
    induction row with
    | nil => exact Nat.le_refl
    | cons digit rest ih =>
      intro number
      have further := ih (10 * number + digit.val)
      rw [List.foldl_cons]
      omega
  induction row generalizing number with
  | nil => rfl
  | cons digit rest ih =>
    rw [List.foldl_cons] at fits ⊢
    have next : 10 * number + digit.val < wordBound :=
      Nat.lt_of_le_of_lt (grows rest _) fits
    rw [leadingDigits, if_pos next, ih _ fits]

theorem filterMap_ofChar? (row : List Digit) :
    (row.map Digit.toChar).filterMap Digit.ofChar? = row := by
  rw [List.filterMap_map, show Digit.ofChar? ∘ Digit.toChar = some from funext Digit.ofChar?_toChar,
    List.filterMap_some]

/-- A number of one word that is moved up by some places stays below a bound that lies more than a
word above. -/
theorem word_mul_two_pow_lt {number places top : Nat} (fits : number < wordBound)
    (room : places + 69 ≤ top) : 16 * (number * 2 ^ places + 1) < 2 ^ top := by
  have positive : 0 < 2 ^ places := Nat.two_pow_pos places
  have below : (number + 1) * 2 ^ places ≤ 2 ^ (64 : Nat) * 2 ^ places :=
    Nat.mul_le_mul_right _ fits
  have split : 2 ^ (places + 69) = 32 * (2 ^ (64 : Nat) * 2 ^ places) := by
    rw [Nat.pow_add, Nat.mul_comm, show (69 : Nat) = 5 + 64 from rfl, Nat.pow_add, Nat.mul_assoc]
  have higher : 2 ^ (places + 69) ≤ 2 ^ top := Nat.pow_le_pow_right (by decide) room
  rw [Nat.add_mul, Nat.one_mul] at below
  omega

/-- Sixteen times a number of one word, in units, is far below the overflow bound. -/
theorem units_of_word_lt {number : Nat} (fits : number < wordBound) :
    16 * (number * unitsPerOne + 1) < overflowUnits := by
  unfold unitsPerOne overflowUnits
  exact word_mul_two_pow_lt fits (by decide)

/-- A whole number of one word is a finite number. -/
theorem ofNat_eq_finite {number : Nat} (fits : number < wordBound) :
    ∃ units held, ofNat number = .finite false units held ∧
      units ≤ 2 * (number * unitsPerOne) + 1 := by
  have small := units_of_word_lt fits
  have rounded := round_eq_finite false
    (show 2 * (number * unitsPerOne / 1) + 1 < overflowUnits by rw [Nat.div_one]; omega)
  rw [Nat.div_one] at rounded
  exact rounded

/-- A whole number of one word stays finite when it is multiplied by one. -/
theorem isFinite_mul_one {number : Nat} (fits : number < wordBound) :
    (mul (ofNat number) (ofNat 1)).isFinite = true := by
  obtain ⟨units, held, same, bound⟩ := ofNat_eq_finite fits
  obtain ⟨one, oneHeld, sameOne, oneBound⟩ :=
    ofNat_eq_finite (show 1 < wordBound by decide)
  have small := units_of_word_lt fits
  have positive := unitsPerOne_pos
  rw [same, sameOne, mul]
  have product : units * one / unitsPerOne ≤ 3 * units := by
    have bounded : units * one ≤ units * (3 * unitsPerOne) :=
      Nat.mul_le_mul_left units (by omega)
    refine Nat.div_le_of_le_mul (Nat.le_trans bounded (Nat.le_of_eq ?_))
    ac_rfl
  obtain ⟨_, _, rounded, -⟩ := round_eq_finite (xor false false)
    (show 2 * (units * one / unitsPerOne) + 1 < overflowUnits by omega)
  rw [rounded]
  rfl

/-- A whole number that fits into a word has a literal in range. -/
theorem ofLiteral?_ofNat_isSome {number : Nat} (fits : number < wordBound) :
    (ofLiteral? (Literal.ofNat number)).isSome = true := by
  obtain ⟨row, spelled, value, -, -⟩ := Token.exists_row number
  have taken : leadingDigits 0 row = (number, 0) := by
    rw [leadingDigits_of_lt row 0 (Nat.lt_of_le_of_lt (Nat.le_of_eq value) fits)]
    exact congrArg (·, 0) value
  have digits : leadingDigits 0 ((Nat.toDigits 10 number).filterMap Digit.ofChar?) =
      (number, 0) := by
    rw [spelled, filterMap_ofChar?, taken]
  have scaled : (scaleOnce 3 (ofNat number) 0).isSome = true := by
    rw [scaleOnce, if_pos (by decide), if_neg (by decide)]
    have finite := isFinite_mul_one fits
    exact if_pos finite ▸ rfl
  rw [ofLiteral?]
  simp only [Literal.ofNat, digits, leadingDigits, Option.isSome_map]
  exact scaled

end Binary64

end Storyboard
