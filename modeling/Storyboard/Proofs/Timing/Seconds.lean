import Storyboard.Proofs.Number.Ratios
import Storyboard.Proofs.Text.Templates
import Storyboard.Proofs.Timing.Expressions

/-!
# Seconds and milliseconds

A whole number of milliseconds can be written in milliseconds or, with at most three digits behind
the point, in seconds. An amount in seconds is rounded to the format as it is written; then it is
multiplied by a thousand, which rounds again, and cut to a whole number. If the second rounding ends
below the whole number, a millisecond is lost.

Whether it does depends on the leading bits only. Moved up until it has 63 bits, a count is divided
by a thousand to the nearest whole number, or to the nearest even one from `1000 * 2 ^ 53` on; its
thousandfold is rounded to the nearest multiple of 1024. The first error is at most 500 when whole
numbers are in reach, and the second rounding mends it. It can be twice as much when only even ones
are, and an error of more than half of 1024 below the count stays (`FallsShort`).

So seconds and milliseconds agree exactly when neither amount falls short, and an amount that does
is one millisecond less (`Timing.resolveText_seconds_iff`). Whole eighths of a second never fall
short (`not_fallsShort_of_dvd`), which is why the usual times show nothing of it; the least amount
that does is `1.001s`.
-/

set_option autoImplicit false

namespace Storyboard

/-! ## A thousandth and its thousandfold -/

/-- A number of 63 bits whose thousandth is rounded down, and so far that the thousandfold is
rounded to a number below it. -/
def RoundsShort (number : Nat) : Prop :=
  1000 * 2 ^ (53 : Nat) ≤ number ∧ 512 < number % 2000 ∧ number % 2000 < 1000

/-- A count moved up by binary places until its leading bit stands at place 62. -/
def raised (count : Nat) : Nat :=
  count * 2 ^ (62 - Nat.log2 count)

/-- A count of milliseconds that loses one of them when it is written in seconds. -/
def FallsShort (count : Nat) : Prop :=
  RoundsShort (raised count)

instance (count : Nat) : Decidable (FallsShort count) :=
  inferInstanceAs (Decidable (_ ∧ _ ∧ _))

/-- The milliseconds that are left of a count of milliseconds written in seconds. -/
def millisOfSeconds (count : Nat) : Nat :=
  if FallsShort count then count - 1 else count

theorem millisOfSeconds_le (count : Nat) : millisOfSeconds count ≤ count := by
  unfold millisOfSeconds
  split <;> omega

/-- Nothing is lost of a count unless it falls short. -/
theorem millisOfSeconds_eq_iff {count : Nat} :
    millisOfSeconds count = count ↔ ¬FallsShort count := by
  unfold millisOfSeconds
  split
  · next short =>
    have positive : count ≠ 0 := by
      rintro rfl
      exact absurd short (by decide)
    exact iff_of_false (by omega) (not_not.2 short)
  · next exact => exact iff_of_true rfl exact

theorem log2_lt_of_lt {count : Nat} (small : count < 10 ^ (12 : Nat)) : Nat.log2 count < 40 := by
  by_cases zero : count = 0
  · subst zero
    decide
  · exact (Nat.log2_lt zero).2 (Nat.lt_trans small (by decide))

/-- The lower bits of a raised count are zero. -/
theorem exists_raised_eq {count : Nat} (small : count < 10 ^ (12 : Nat)) :
    ∃ places : Nat, raised count = 2 ^ (23 : Nat) * (count * 2 ^ places) := by
  have leading := log2_lt_of_lt small
  have split : 62 - Nat.log2 count = 23 + (39 - Nat.log2 count) := by omega
  refine ⟨39 - Nat.log2 count, ?_⟩
  rw [raised, split, Nat.pow_add]
  ac_rfl

theorem raised_range {count : Nat} (positive : 0 < count) (small : count < 10 ^ (12 : Nat)) :
    2 ^ (62 : Nat) ≤ raised count ∧ raised count < 2 ^ (63 : Nat) := by
  have leading := log2_lt_of_lt small
  have low := Nat.log2_self_le (Nat.ne_of_gt positive)
  have high : count < 2 ^ (Nat.log2 count + 1) := Nat.lt_log2_self
  constructor
  · calc 2 ^ (62 : Nat) = 2 ^ Nat.log2 count * 2 ^ (62 - Nat.log2 count) := by
          rw [← Nat.pow_add]
          congr 1
          omega
      _ ≤ raised count := Nat.mul_le_mul_right _ low
  · calc raised count < 2 ^ (Nat.log2 count + 1) * 2 ^ (62 - Nat.log2 count) :=
          Nat.mul_lt_mul_of_pos_right high (Nat.two_pow_pos _)
      _ = 2 ^ (63 : Nat) := by
          rw [← Nat.pow_add]
          congr 1
          omega

/-- Whole eighths of a second do not fall short: the format holds them. -/
theorem not_fallsShort_of_dvd {count : Nat} (small : count < 10 ^ (12 : Nat))
    (eighths : 125 ∣ count) : ¬FallsShort count := by
  obtain ⟨whole, rfl⟩ := eighths
  obtain ⟨places, even⟩ := exists_raised_eq small
  rw [Nat.mul_assoc 125] at even
  unfold FallsShort RoundsShort
  omega

/-- Rounding a number of 63 bits cuts it to a multiple of 1024. -/
theorem roundRatio_of_leading {number : Nat} (low : 2 ^ (62 : Nat) ≤ number)
    (high : number < 2 ^ (63 : Nat)) : roundRatio number 1 = nearestEven number 1024 * 1024 := by
  have leading : Nat.log2 number = 62 := (Nat.log2_eq_iff (by omega)).2 ⟨low, high⟩
  have step : 2 ^ spareBits number = 1024 := by
    rw [spareBits, leading]
    rfl
  simp only [roundRatio, Nat.div_one, Nat.one_mul, step]

section

variable {number rest : Nat}

/-- The thousandfold of the rounded thousandth keeps its 63 bits. It is less than a thousand away
from the number, and it is below it by more than 512 only if the number rounds short. -/
theorem thousandfold_near (low : 2 ^ (62 : Nat) ≤ number) (high : number < 2 ^ (63 : Nat))
    (even : number = 2 ^ (23 : Nat) * rest) :
    (2 ^ (62 : Nat) ≤ 1000 * roundRatio number 1000 ∧
      1000 * roundRatio number 1000 < 2 ^ (63 : Nat)) ∧
      (RoundsShort number → 1000 * roundRatio number 1000 + 512 < number ∧
        number < 1000 * roundRatio number 1000 + 1000) ∧
      (¬RoundsShort number → number ≤ 1000 * roundRatio number 1000 + 512 ∧
        1000 * roundRatio number 1000 ≤ number + 1000) := by
  unfold RoundsShort
  -- The thousandth has 53 bits up to `1000 * 2 ^ 53`, and one more from there on.
  by_cases fine : number < 1000 * 2 ^ (53 : Nat)
  · have leading : Nat.log2 (number / 1000) = 52 :=
      (Nat.log2_eq_iff (by omega)).2 ⟨by omega, by omega⟩
    have step : 2 ^ spareBits (number / 1000) = 1 := by
      rw [spareBits, leading]
      rfl
    simp only [roundRatio, step, nearestEven]
    split
    · omega
    · split <;> omega
  · have leading : Nat.log2 (number / 1000) = 53 :=
      (Nat.log2_eq_iff (by omega)).2 ⟨by omega, by omega⟩
    have step : 2 ^ spareBits (number / 1000) = 2 := by
      rw [spareBits, leading]
      rfl
    simp only [roundRatio, step, nearestEven]
    split
    · omega
    · split <;> omega

/-- The thousandfold is rounded to the next number of the format below if the number rounds short,
and otherwise to the number itself or to the next one above. -/
theorem roundRatio_thousandfold (low : 2 ^ (62 : Nat) ≤ number) (high : number < 2 ^ (63 : Nat))
    (even : number = 2 ^ (23 : Nat) * rest) :
    (RoundsShort number → number = roundRatio (1000 * roundRatio number 1000) 1 + 1024) ∧
      (¬RoundsShort number → number ≤ roundRatio (1000 * roundRatio number 1000) 1 ∧
        roundRatio (1000 * roundRatio number 1000) 1 ≤ number + 1024) := by
  obtain ⟨⟨above, below⟩, short, exact⟩ := thousandfold_near low high even
  rw [roundRatio_of_leading above below]
  generalize 1000 * roundRatio number 1000 = product at short exact ⊢
  unfold nearestEven
  dsimp only
  constructor
  · intro rounds
    obtain ⟨far, near⟩ := short rounds
    split
    · omega
    · split <;> omega
  · intro rounds
    obtain ⟨near, far⟩ := exact rounds
    -- A product in the middle between two multiples goes to the even one, which is the number.
    split
    · omega
    · split
      · omega
      · split <;> omega

end

/-- A count that is divided by a thousand and multiplied by a thousand, both times rounded, in units
of any power of two, and cut to a whole number. -/
theorem roundRatio_seconds {count places : Nat} (positive : 0 < count)
    (small : count < 10 ^ (12 : Nat)) (room : 62 ≤ places) :
    roundRatio (1000 * roundRatio (count * 2 ^ places) 1000) 1 / 2 ^ places =
      millisOfSeconds count := by
  obtain ⟨low, high⟩ := raised_range positive small
  obtain ⟨_, even⟩ := exists_raised_eq small
  have leading := log2_lt_of_lt small
  obtain ⟨above, unit⟩ : ∃ above, 2 ^ places = 2 ^ (62 - Nat.log2 count) * 2 ^ above := by
    refine ⟨places - (62 - Nat.log2 count), ?_⟩
    rw [← Nat.pow_add]
    congr 1
    omega
  have steps : 2 ^ (23 : Nat) ≤ 2 ^ (62 - Nat.log2 count) :=
    Nat.pow_le_pow_right (by decide) (by omega)
  have full : 2 ^ (52 : Nat) ≤ raised count / 1000 := by omega
  have thousandth : roundRatio (count * 2 ^ places) 1000 =
      roundRatio (raised count) 1000 * 2 ^ above := by
    rw [unit, ← Nat.mul_assoc]
    exact roundRatio_mul_two_pow full above
  have fullProduct : 2 ^ (52 : Nat) ≤ 1000 * roundRatio (raised count) 1000 / 1 := by
    have bound := (thousandfold_near low high even).1.1
    omega
  rw [thousandth, ← Nat.mul_assoc, roundRatio_mul_two_pow fullProduct, unit,
    Nat.mul_div_mul_right _ _ (Nat.two_pow_pos above)]
  obtain ⟨short, exact⟩ := roundRatio_thousandfold low high even
  have whole : raised count = count * 2 ^ (62 - Nat.log2 count) := rfl
  rw [millisOfSeconds]
  split
  · next falls =>
    have lower := short falls
    have next : count * 2 ^ (62 - Nat.log2 count) =
        (count - 1) * 2 ^ (62 - Nat.log2 count) + 2 ^ (62 - Nat.log2 count) := by
      rw [← Nat.succ_mul, Nat.succ_eq_add_one, Nat.sub_add_cancel positive]
    exact Nat.div_eq_of_lt_le (by omega) (by rw [Nat.sub_add_cancel positive]; omega)
  · next holds =>
    obtain ⟨reached, near⟩ := exact holds
    have next : (count + 1) * 2 ^ (62 - Nat.log2 count) =
        count * 2 ^ (62 - Nat.log2 count) + 2 ^ (62 - Nat.log2 count) := Nat.succ_mul _ _
    exact Nat.div_eq_of_lt_le (by omega) (by omega)

namespace Binary64

/-- The whole part of a number from zero on. -/
theorem floor_finite_false {units : Nat} (held : Representable units) :
    floor (finite false units held) = ofNat (units / unitsPerOne) :=
  rfl

theorem floor_ofNat {count : Nat} (small : count < 2 ^ (53 : Nat)) :
    floor (ofNat count) = ofNat count := by
  obtain ⟨held, same⟩ := ofNat_of_lt small
  rw [same, floor_finite_false, Nat.mul_div_cancel _ unitsPerOne_pos, same]

/-- The seconds of a count of milliseconds, times a thousand, cut to a whole number. -/
theorem floor_seconds {count : Nat} (small : count < 10 ^ (12 : Nat)) :
    (round false (count * unitsPerOne) 1000).isFinite = true ∧
      floor (round false (count * unitsPerOne) 1000 * Scalar.ofCount 1000) =
        ofNat (millisOfSeconds count) := by
  rcases Nat.eq_zero_or_pos count with rfl | positive
  · decide +kernel
  have fits := units_of_word_lt (Nat.lt_trans small (show 10 ^ (12 : Nat) < wordBound by decide))
  have unit : 1000 ≤ unitsPerOne := by
    unfold unitsPerOne
    exact Nat.le_trans (show 1000 ≤ 2 ^ (10 : Nat) by decide)
      (Nat.pow_le_pow_right (by decide) (by decide))
  have large : unitsPerOne ≤ count * unitsPerOne := Nat.le_mul_of_pos_left _ positive
  have bound := roundRatio_le (count * unitsPerOne) 1000
  obtain ⟨held, thousandth⟩ := round_of_small false
    (show 2 * (count * unitsPerOne / 1000) + 1 < overflowUnits by omega)
  obtain ⟨_, thousand⟩ := ofNat_of_lt (show 1000 < 2 ^ (53 : Nat) by decide)
  have product : mul (finite false (roundRatio (count * unitsPerOne) 1000) held) (ofNat 1000) =
      round false (1000 * roundRatio (count * unitsPerOne) 1000) 1 := by
    rw [thousand, mul]
    exact round_congr _ unitsPerOne_pos Nat.one_pos (by rw [Nat.mul_one]; ac_rfl)
  obtain ⟨_, rounded⟩ := round_of_small false
    (show 2 * (1000 * roundRatio (count * unitsPerOne) 1000 / 1) + 1 < overflowUnits by omega)
  have seconds : floor (mul (finite false (roundRatio (count * unitsPerOne) 1000) held)
      (ofNat 1000)) = ofNat (millisOfSeconds count) := by
    rw [product, rounded, floor_finite_false]
    congr 1
    have whole := roundRatio_seconds positive small (show 62 ≤ unitPlaces by decide)
    unfold unitsPerOne
    exact whole
  rw [thousandth]
  exact ⟨rfl, seconds⟩

/-- A numeral with few digits behind the point is the ratio to a power of ten. -/
theorem scaled_of_places (digits : Nat) {places : Nat} (few : places ≤ 3) :
    scaled false digits (0 - places) = round false (digits * unitsPerOne) (10 ^ places) := by
  by_cases zero : digits = 0
  · have rounded : roundRatio 0 (10 ^ places) = 0 := by simp [roundRatio, nearestEven]
    subst zero
    simp only [scaled, round, Nat.zero_mul, rounded]
    rw [dif_pos overflowUnits_pos]
    rfl
  rw [scaled, if_neg zero, if_neg (by omega), if_neg (by omega)]
  rcases Nat.eq_zero_or_pos places with rfl | positive
  · simp
  · rw [if_pos (by omega), Int.zero_sub, Int.natAbs_neg, Int.natAbs_natCast]

end Binary64

/-! ## Amounts -/

/-- A number writes so many thousandths, without a minus and with at most three digits behind the
point. -/
structure DecimalNumber.Writes (number : DecimalNumber) (thousandths : Nat) : Prop where
  unsigned : number.negative = false
  places : (number.fraction.getD []).length ≤ 3
  value : Numeral.ofDigits (number.whole ++ number.fraction.getD []) * 1000 =
    thousandths * 10 ^ (number.fraction.getD []).length

theorem DecimalNumber.Writes.ofNumeral {number : DecimalNumber} {thousandths : Nat}
    (writes : number.Writes thousandths) :
    Binary64.ofNumeral number.numeral = Binary64.round false (thousandths * unitsPerOne) 1000 := by
  rw [DecimalNumber.numeral, writes.unsigned, Binary64.ofNumeral,
    Binary64.scaled_of_places _ writes.places]
  refine Binary64.round_congr _ (Nat.pow_pos (by decide)) (by decide) ?_
  have value := writes.value
  calc _ = Numeral.ofDigits (number.whole ++ number.fraction.getD []) * 1000 * unitsPerOne := by
        ac_rfl
    _ = _ := by
        rw [value]
        ac_rfl

namespace TimingGrammar

/-- A number of milliseconds takes as many. -/
theorem takes_millis {number : DecimalNumber} {count : Nat} (small : count < 10 ^ (12 : Nat))
    (writes : number.Writes (1000 * count)) :
    Amount.Takes ⟨number, false⟩ (Binary64.ofNat count) := by
  have read : Binary64.ofNumeral number.numeral = Binary64.ofNat count := by
    rw [writes.ofNumeral]
    exact Binary64.round_congr false (by decide) (by decide) (by ac_rfl)
  have bound : count < 2 ^ (53 : Nat) := by omega
  obtain ⟨_, shape⟩ := Binary64.ofNat_of_lt bound
  refine ⟨Binary64.ofNumeral number.numeral, rfl, ?_, ?_⟩
  · rw [read, shape]
    rfl
  · rw [read, if_neg Bool.false_ne_true]
    exact (Binary64.floor_ofNat bound).symm

/-- A number of seconds takes its milliseconds, or one less. -/
theorem takes_seconds {number : DecimalNumber} {count : Nat} (small : count < 10 ^ (12 : Nat))
    (writes : number.Writes count) :
    Amount.Takes ⟨number, true⟩ (Binary64.ofNat (millisOfSeconds count)) := by
  obtain ⟨finite, floor⟩ := Binary64.floor_seconds small
  refine ⟨Binary64.ofNumeral number.numeral, rfl, ?_, ?_⟩
  · rw [writes.ofNumeral]
    exact finite
  · rw [writes.ofNumeral, if_pos rfl]
    exact floor.symm

end TimingGrammar

/-! ## Texts -/

namespace TimingParts

theorem isBlank_of_isEasingChar {c : Char} (letter : isEasingChar c = true) :
    isBlank c = false := by
  simp only [isEasingChar, Bool.or_eq_true, beq_iff_eq] at letter
  rcases letter with ((rfl | letter) | long) | kelvin
  · decide
  · exact (TimingGrammar.wordChar_kinds (.inr letter)).1
  · simp [isBlank, long]
  · simp [isBlank, kelvin]

/-- An easing is not empty, and it has no blank at its ends. -/
theorem trimmed_of_isEasing {easing : List Char} (eased : isEasing easing = true) :
    easing ≠ [] ∧ Trimmed easing := by
  obtain ⟨filled, ending⟩ := Bool.and_eq_true_iff.1 eased
  have parted : easing.takeWhile isEasingChar ++ easing.dropWhile isEasingChar = easing :=
    List.takeWhile_append_dropWhile
  have letters : ∀ c ∈ easing.takeWhile isEasingChar, isBlank c = false := fun c member =>
    isBlank_of_isEasingChar (List.all_eq_true.1 List.all_takeWhile c member)
  have some : easing.takeWhile isEasingChar ≠ [] := by simpa using filled
  refine ⟨fun empty => some (by rw [empty]; rfl), fun c first => ?_, fun c last => ?_⟩
  · obtain ⟨letter, others, shape⟩ := List.exists_cons_of_ne_nil some
    rw [← parted, shape] at first
    cases first
    exact letters c (shape ▸ List.mem_cons_self)
  · rw [← parted, List.getLast?_append] at last
    cases behind : easing.dropWhile isEasingChar with
    | nil =>
      rw [behind] at last
      exact letters c (List.mem_of_mem_getLast? last)
    | cons opens rest =>
      simp only [behind, closesArguments, Bool.and_eq_true, beq_iff_eq] at ending
      obtain ⟨rfl, ⟨closed, -⟩, -⟩ := ending
      rw [behind, List.getLast?_cons, closed] at last
      cases last
      decide

end TimingParts

/-- The characters of a duration and a delay in one unit, and of an easing. -/
def timingChars (duration delay : DecimalNumber) (unit easing : List Char) : List Char :=
  duration.text ++ (unit ++ ' ' :: (delay.text ++ (unit ++ ' ' :: easing)))

/-- A duration and a delay in one unit, and an easing. -/
def timingText (duration delay : DecimalNumber) (unit easing : String) : String :=
  String.ofList (timingChars duration delay unit.toList easing.toList)

namespace Timing

open TimingGrammar

section

variable {duration delay : DecimalNumber} {unit easing : List Char} {inSeconds : Bool}

theorem read?_timingChars (spelled : SpellsUnit unit inSeconds)
    (eased : TimingParts.isEasing easing = true) :
    TimingParts.read? (timingChars duration delay unit easing) =
      some ⟨⟨duration.text, inSeconds⟩, some ⟨delay.text, inSeconds⟩, some easing⟩ := by
  have ends : ∀ rest, Ends (' ' :: rest) := by
    rintro rest c tail begins
    cases begins
    rfl
  have first : SpellsAmount (duration.text ++ unit) ⟨duration, inSeconds⟩ := .amount spelled
  have second : SpellsAmount (delay.text ++ unit) ⟨delay, inSeconds⟩ := .amount spelled
  have solid : skipBlanks (delay.text ++ unit ++ ' ' :: easing) =
      delay.text ++ unit ++ ' ' :: easing :=
    (Template.skipBlanks_append (List.forall_mem_nil _) (second.solid _)).1
  have solidEasing : skipBlanks easing = easing :=
    skipBlanks_of_solid (TimingParts.trimmed_of_isEasing eased).2.first
  have behind : TimingParts.delayAndEasing? (' ' :: (delay.text ++ unit ++ ' ' :: easing)) =
      some (some ⟨delay.text, inSeconds⟩, some easing) := by
    simp only [TimingParts.delayAndEasing?, show isBlank ' ' = true from rfl, if_true, solid,
      quantity?_of_spells second (ends easing), TimingParts.easing?, solidEasing, eased,
      Bool.and_self, Option.map_some]
    rfl
  rw [timingChars, ← List.append_assoc, ← List.append_assoc, TimingParts.read?,
    quantity?_of_spells first (ends _)]
  simp only [Option.bind_eq_bind, Option.bind_some, behind]
  rfl

theorem trimBlanks_timingChars (eased : TimingParts.isEasing easing = true) :
    trimBlanks (timingChars duration delay unit easing) =
      timingChars duration delay unit easing := by
  obtain ⟨filled, ends⟩ := TimingParts.trimmed_of_isEasing eased
  have amount : SpellsAmount (duration.text ++ []) ⟨duration, false⟩ := .amount .absent
  have trimmed : Trimmed (timingChars duration delay unit easing) := by
    constructor
    · intro c first
      obtain ⟨rest, shape⟩ := List.head?_eq_some_iff.1 first
      refine amount.solid (unit ++ ' ' :: (delay.text ++ (unit ++ ' ' :: easing))) c rest ?_
      rw [List.append_nil]
      exact shape
    · intro c last
      have split : timingChars duration delay unit easing =
          duration.text ++ (unit ++ ' ' :: (delay.text ++ (unit ++ [' ']))) ++ easing := by
        simp [timingChars]
      rw [split, List.getLast?_append, List.getLast?_eq_some_getLast filled, Option.some_or] at last
      exact ends.last c (by rwa [List.getLast?_eq_some_getLast filled])
  have some : timingChars duration delay unit easing ≠ [] := by
    simp [timingChars]
  simpa using trimmed.trimBlanks (List.forall_mem_nil _) (List.forall_mem_nil _) some

/-- A text in one unit is resolved to its amounts, without a problem. -/
theorem resolveText_timingText {unit easing : String} {count wait : Nat}
    (spelled : SpellsUnit unit.toList inSeconds)
    (eased : TimingParts.isEasing easing.toList = true) (small : count < 2 ^ (53 : Nat))
    (smallWait : wait < 2 ^ (53 : Nat))
    (takes : Amount.Takes ⟨duration, inSeconds⟩ (Binary64.ofNat count))
    (takesWait : Amount.Takes ⟨delay, inSeconds⟩ (Binary64.ofNat wait)) :
    resolveText (timingText duration delay unit easing) =
      (⟨Binary64.ofNat count, Binary64.ofNat wait, some easing⟩, []) := by
  have values : TimingParts.timings?
      (TimingSpelling.parts ⟨⟨duration, inSeconds⟩, some ⟨delay, inSeconds⟩,
        some easing.toList⟩) = some ⟨Binary64.ofNat count, Binary64.ofNat wait, some easing⟩ :=
    TimingSpelling.timings?_parts_iff.2
      ⟨⟨takes, takesWait⟩, by rw [Option.map_some, String.ofList_toList]⟩
  have read : TimingParts.read? (timingChars duration delay unit.toList easing.toList) =
      some (TimingSpelling.parts ⟨⟨duration, inSeconds⟩, some ⟨delay, inSeconds⟩,
        some easing.toList⟩) :=
    read?_timingChars spelled eased
  rw [resolveText, timingText, String.toList_ofList, trimBlanks_timingChars eased, read,
    Option.bind_some, values]
  simp only [Timings.checked, Binary64.not_ofNat_lt_zero small,
    Binary64.not_ofNat_lt_zero smallWait, if_false, List.append_nil]

end

/-- **Seconds and milliseconds.** A duration and a delay of whole milliseconds below `10 ^ 12` are
resolved to just these numbers when they are written in milliseconds. Written in seconds, with at
most three digits behind the point, each is resolved to the same number or, if it falls short, to
one millisecond less. The easing is kept, and nothing is reported. So both texts say the same
exactly when neither amount falls short. -/
theorem resolveText_seconds_iff {count wait : Nat} (small : count < 10 ^ (12 : Nat))
    (smallWait : wait < 10 ^ (12 : Nat)) {easing : String}
    (eased : TimingParts.isEasing easing.toList = true)
    {millis millisWait seconds secondsWait : DecimalNumber}
    (inMillis : millis.Writes (1000 * count)) (inMillisWait : millisWait.Writes (1000 * wait))
    (inSeconds : seconds.Writes count) (inSecondsWait : secondsWait.Writes wait) :
    (resolveText (timingText millis millisWait "ms" easing) :
        Timings Binary64 × List (Problem Binary64)) =
      (⟨Binary64.ofNat count, Binary64.ofNat wait, some easing⟩, []) ∧
    (resolveText (timingText seconds secondsWait "s" easing) :
        Timings Binary64 × List (Problem Binary64)) =
      (⟨Binary64.ofNat (millisOfSeconds count), Binary64.ofNat (millisOfSeconds wait),
        some easing⟩, []) ∧
    ((resolveText (timingText seconds secondsWait "s" easing) :
        Timings Binary64 × List (Problem Binary64)) =
        resolveText (timingText millis millisWait "ms" easing) ↔
      ¬FallsShort count ∧ ¬FallsShort wait) := by
  have bound : ∀ {number : Nat}, number < 10 ^ (12 : Nat) →
      number < 2 ^ (53 : Nat) ∧ millisOfSeconds number < 2 ^ (53 : Nat) := by
    intro number below
    have left := millisOfSeconds_le number
    omega
  have unitMillis : SpellsUnit "ms".toList false := .milliseconds (by decide)
  have unitSeconds : SpellsUnit "s".toList true := .seconds (by decide)
  have millisText := resolveText_timingText unitMillis eased (bound small).1 (bound smallWait).1
    (takes_millis small inMillis) (takes_millis smallWait inMillisWait)
  have secondsText := resolveText_timingText unitSeconds eased (bound small).2 (bound smallWait).2
    (takes_seconds small inSeconds) (takes_seconds smallWait inSecondsWait)
  refine ⟨millisText, secondsText, ?_⟩
  rw [millisText, secondsText]
  simp only [Prod.mk.injEq, Timings.mk.injEq, and_true, millisOfSeconds_eq_iff,
    Binary64.ofNat_inj (bound small).2 (bound small).1,
    Binary64.ofNat_inj (bound smallWait).2 (bound smallWait).1]

/-- The number `2002`. -/
def stretchMillis : DecimalNumber :=
  ⟨false, "2002".toList, none, by simp, by simp⟩

/-- The number `2.002`. -/
def stretchSeconds : DecimalNumber :=
  ⟨false, "2".toList, some "002".toList, by simp, by simp⟩

/-- The number `250.0`. -/
def quarterMillis : DecimalNumber :=
  ⟨false, "250".toList, some "0".toList, by simp, by simp⟩

/-- The number `.25`. -/
def quarterSeconds : DecimalNumber :=
  ⟨false, [], some "25".toList, by simp, by simp⟩

/-- A duration that falls short beside a delay that does not. -/
theorem resolveText_twoSeconds :
    timingText stretchMillis quarterMillis "ms" "steps(2, end)" =
        "2002ms 250.0ms steps(2, end)" ∧
      timingText stretchSeconds quarterSeconds "s" "steps(2, end)" = "2.002s .25s steps(2, end)" ∧
      FallsShort 2002 ∧ ¬FallsShort 250 ∧
      (resolveText "2002ms 250.0ms steps(2, end)" : Timings Binary64 × List (Problem Binary64)) =
        (⟨Binary64.ofNat 2002, Binary64.ofNat 250, some "steps(2, end)"⟩, []) ∧
      (resolveText "2.002s .25s steps(2, end)" : Timings Binary64 × List (Problem Binary64)) =
        (⟨Binary64.ofNat 2001, Binary64.ofNat 250, some "steps(2, end)"⟩, []) := by
  have millisText : timingText stretchMillis quarterMillis "ms" "steps(2, end)" =
      "2002ms 250.0ms steps(2, end)" := by decide
  have secondsText : timingText stretchSeconds quarterSeconds "s" "steps(2, end)" =
      "2.002s .25s steps(2, end)" := by decide
  have resolved := resolveText_seconds_iff (show 2002 < 10 ^ (12 : Nat) by decide)
    (show 250 < 10 ^ (12 : Nat) by decide)
    (show TimingParts.isEasing "steps(2, end)".toList = true by decide)
    (show stretchMillis.Writes (1000 * 2002) from ⟨rfl, by decide, by decide⟩)
    (show quarterMillis.Writes (1000 * 250) from ⟨rfl, by decide, by decide⟩)
    (show stretchSeconds.Writes 2002 from ⟨rfl, by decide, by decide⟩)
    (show quarterSeconds.Writes 250 from ⟨rfl, by decide, by decide⟩)
  rw [millisText, secondsText] at resolved
  exact ⟨millisText, secondsText, by decide, by decide, resolved.1, resolved.2.1⟩

/-- The same duration in seconds and in milliseconds is not resolved to the same time. -/
theorem resolveText_loses_a_millisecond :
    (resolveText "1.005s 0s linear" : Timings Binary64 × List (Problem Binary64)) =
        (⟨Binary64.ofNat 1004, 0, some "linear"⟩, []) ∧
      (resolveText "1005ms 0ms linear" : Timings Binary64 × List (Problem Binary64)) =
        (⟨Binary64.ofNat 1005, 0, some "linear"⟩, []) ∧
      Binary64.ofNat 1004 ≠ Binary64.ofNat 1005 := by
  decide +kernel

end Timing

end Storyboard
