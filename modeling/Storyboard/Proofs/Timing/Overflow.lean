import Storyboard.Compilation
import Storyboard.Proofs.Number.Clocks
import Storyboard.Proofs.Number.Words
import Storyboard.Proofs.Timing.Expressions

/-!
# Where a timing expression overflows

The amounts that a timing expression resolves to are numbers from zero on. A number that is written
out of range is refused, because it is an infinity when it is read. But whether it is finite is
asked of the number as it is written, and an amount in seconds is multiplied by a thousand
afterwards. The product may be out of range while the number is not, and nothing asks again.

So an amount is infinite in one case only, when it is written in seconds and its thousandfold is out
of range (`Timing.resolveText_infinite_iff`). Neither rounding down nor replacing what is negative
brings in another one: the whole part of a number that the format holds is held by the format
(`precise_wholes`), and a negative infinity counts as negative.
-/

set_option autoImplicit false

namespace Storyboard

/-- Cutting the lower bits of a count off leaves no more significant bits than it had. -/
theorem precise_wholes {count : Nat} (precise : Precise count) (places : Nat) :
    Precise (count / 2 ^ places * 2 ^ places) := by
  have below : count / 2 ^ places * 2 ^ places ≤ count := Nat.div_mul_le_self count (2 ^ places)
  by_cases low : spareBits (count / 2 ^ places * 2 ^ places) ≤ places
  · -- The bits that have to be zero are among the ones cut off.
    have divides : 2 ^ spareBits (count / 2 ^ places * 2 ^ places) ∣
        count / 2 ^ places * 2 ^ places :=
      (Nat.pow_dvd_pow 2 low).trans (Nat.dvd_mul_left _ _)
    exact Nat.mod_eq_zero_of_dvd divides
  · -- Then the bits that are cut off are zero already.
    have nonzero : count / 2 ^ places * 2 ^ places ≠ 0 := by
      intro zero
      rw [zero] at low
      exact low (Nat.zero_le places)
    have spare : spareBits (count / 2 ^ places * 2 ^ places) ≤ spareBits count := by
      have shorter : Nat.log2 (count / 2 ^ places * 2 ^ places) ≤ Nat.log2 count :=
        (Nat.le_log2 (by omega)).2 ((Nat.log2_self_le nonzero).trans below)
      exact Nat.sub_le_sub_right shorter 52
    have divides : 2 ^ places ∣ count :=
      (Nat.pow_dvd_pow 2 (by omega)).trans (Nat.dvd_of_mod_eq_zero precise)
    rw [Nat.div_mul_cancel divides]
    exact precise

namespace Binary64

/-- The whole part of a finite number from zero on is finite. -/
theorem floor_finite {units : Nat} (held : Representable units) :
    ∃ wholes also, floor (finite false units held) = finite false wholes also := by
  have fits : Representable (units / unitsPerOne * unitsPerOne) := by
    refine ⟨?_, lt_of_le_of_lt (Nat.div_mul_le_self _ _) held.2⟩
    unfold unitsPerOne
    exact precise_wholes held.1 unitPlaces
  exact ⟨_, fits, round_of_representable false fits⟩

/-- Rounding gives no value that is not a number. -/
theorem round_ne_nan (negative : Bool) (numerator denominator : Nat) :
    round negative numerator denominator ≠ .nan := by
  unfold round
  split
  · exact fun same => by cases same
  · exact fun same => by cases same

/-- A product of finite numbers may be an infinity, but it is a number. -/
theorem mul_ne_nan {first second : Binary64} (finite : first.isFinite = true)
    (other : second.isFinite = true) : mul first second ≠ .nan := by
  cases first with
  | nan => cases finite
  | infinite negative => cases finite
  | finite negative units held =>
    cases second with
    | nan => cases other
    | infinite negative => cases other
    | finite also more _ => exact round_ne_nan _ _ _

/-- A negative number rounded down is below zero, or it is the zero of either sign. -/
theorem floor_negative (units : Nat) (held : Representable units) :
    floor (finite true units held) < 0 ∨
      floor (finite true units held) = zeroOf true := by
  have cases_round : ∀ count : Nat, round true count 1 < 0 ∨ round true count 1 = zeroOf true := by
    intro count
    unfold round
    split
    · rcases Nat.eq_zero_or_pos (roundRatio count 1) with zero | positive
      · right
        simp only [zero, zeroOf]
      · left
        have below : signed true (roundRatio count 1) < signed false 0 := by
          simp [signed, positive]
        exact decide_eq_true below
    · exact .inl rfl
  exact cases_round _

/-- A number that is rounded down and replaced by zero if it is negative is a number from zero on,
and it is finite unless it was infinite. -/
theorem checked_floor {number : Binary64} (proper : number ≠ .nan) :
    Scalar.atMost 0 (if floor number < 0 then 0 else floor number) = true ∧
      ((if floor number < 0 then 0 else floor number).isFinite = false ↔
        number = .infinite false) := by
  have zero : Scalar.atMost 0 (0 : Binary64) = true ∧ (0 : Binary64).isFinite = true := ⟨rfl, rfl⟩
  cases number with
  | nan => exact absurd rfl proper
  | infinite negative =>
    cases negative with
    | false => exact ⟨rfl, iff_of_true rfl rfl⟩
    | true => exact ⟨rfl, iff_of_false (by decide) (by decide)⟩
  | finite negative units held =>
    cases negative with
    | false =>
      obtain ⟨wholes, also, same⟩ := floor_finite held
      have above : ¬finite false wholes also < 0 := by
        intro below
        have signs : (wholes : Int) < 0 := of_decide_eq_true below
        omega
      rw [same, if_neg above]
      refine ⟨atMost_zero_finite_iff.2 (Int.natCast_nonneg wholes), iff_of_false ?_ ?_⟩
      · exact fun infinite => by cases infinite
      · exact fun infinite => by cases infinite
    | true =>
      have finite : finite true units held ≠ .infinite false := fun same => by cases same
      rcases floor_negative units held with below | same
      · rw [if_pos below]
        exact ⟨zero.1, iff_of_false (by rw [zero.2]; decide) finite⟩
      · rw [same, if_neg (by decide)]
        exact ⟨by decide, iff_of_false (by decide) finite⟩

end Binary64

/-- An amount is written in seconds, and it is out of range in milliseconds though the number that
is written is not. -/
def Quantity.Overflows (quantity : Quantity) : Prop :=
  quantity.inSeconds = true ∧ ∃ numeral, Numeral.read? quantity.digits = some numeral ∧
    (Binary64.ofNumeral numeral).isFinite = true ∧
      Binary64.ofNumeral numeral * Scalar.ofCount 1000 = .infinite false

/-- The milliseconds of an amount, checked, are a number from zero on, and they are finite unless
the amount overflows. -/
theorem Quantity.checked_millis {quantity : Quantity} {millis : Binary64}
    (value : quantity.millis? = some millis) :
    Scalar.atMost 0 (if millis < 0 then 0 else millis) = true ∧
      (Scalar.isFinite (if millis < 0 then 0 else millis) = false ↔ quantity.Overflows) := by
  obtain ⟨numeral, read, rest⟩ := Option.bind_eq_some_iff.1 value
  obtain ⟨amount, has, taken⟩ := Option.bind_eq_some_iff.1 rest
  obtain rfl : Binary64.ofNumeral numeral = amount := Option.some.inj has
  split at taken
  · next finite =>
    have same := Option.some.inj taken
    by_cases seconds : quantity.inSeconds = true
    · rw [if_pos seconds] at same
      have thousand : (Binary64.ofNat 1000).isFinite = true := by
        obtain ⟨units, held, shape, -⟩ :=
          Binary64.ofNat_eq_finite (show 1000 < Binary64.wordBound by decide)
        rw [shape]
        rfl
      have checked := Binary64.checked_floor (Binary64.mul_ne_nan finite thousand)
      rw [← same]
      refine ⟨checked.1, checked.2.trans ⟨fun infinite => ?_, ?_⟩⟩
      · exact ⟨seconds, numeral, read, finite, infinite⟩
      · rintro ⟨-, other, readOther, -, infinite⟩
        obtain rfl : numeral = other := Option.some.inj (read.symm.trans readOther)
        exact infinite
    · rw [if_neg seconds] at same
      have proper : Binary64.ofNumeral numeral ≠ .nan := by
        intro none
        rw [none] at finite
        cases finite
      have checked := Binary64.checked_floor proper
      rw [← same]
      refine ⟨checked.1, checked.2.trans (iff_of_false ?_ fun overflows => seconds overflows.1)⟩
      intro infinite
      rw [infinite] at finite
      cases finite
  · exact absurd taken (by simp)

/-- The same of a delay that may be absent. -/
theorem TimingParts.checked_delay {delay : Option Quantity} {millis : Binary64}
    (value : (delay.map Quantity.millis?).getD (some 0) = some millis) :
    Scalar.atMost 0 (if millis < 0 then 0 else millis) = true ∧
      (Scalar.isFinite (if millis < 0 then 0 else millis) = false ↔
        ∃ quantity ∈ delay, quantity.Overflows) := by
  cases delay with
  | none =>
    obtain rfl : 0 = millis := Option.some.inj value
    rw [ite_self]
    refine ⟨rfl, iff_of_false (by decide) ?_⟩
    rintro ⟨quantity, member, -⟩
    cases member
  | some quantity =>
    have checked := Quantity.checked_millis value
    refine ⟨checked.1, checked.2.trans ⟨fun overflows => ⟨quantity, rfl, overflows⟩, ?_⟩⟩
    rintro ⟨other, member, overflows⟩
    cases member
    exact overflows

namespace Timing

/-- The text is accepted, and these are the parts of it as written. -/
structure Accepts (source : String) (parts : TimingParts) : Prop where
  read : TimingParts.read? (trimBlanks source.toList) = some parts
  valued : (parts.timings? : Option (Timings Binary64)).isSome = true

/-- A text is accepted with one reading. -/
theorem Accepts.exists_iff {source : String} {parts : TimingParts} (accepts : Accepts source parts)
    (holds : TimingParts → Prop) : (∃ other, Accepts source other ∧ holds other) ↔ holds parts := by
  constructor
  · rintro ⟨other, also, held⟩
    obtain rfl := Option.some.inj (also.read.symm.trans accepts.read)
    exact held
  · exact fun held => ⟨parts, accepts, held⟩

/-- **The one case of overflow.** Every text resolves to a duration and a delay from zero on. One of
them is infinite exactly when it is written in seconds, as a finite number whose thousandfold is out
of range. -/
theorem resolveText_infinite_iff (source : String) :
    (Scalar.atMost 0 (resolveText source : Timings Binary64 × List (Problem Binary64)).1.duration =
        true ∧
      (Scalar.isFinite (resolveText source : Timings Binary64 × List (Problem Binary64)).1.duration =
        false ↔ ∃ parts, Accepts source parts ∧ parts.duration.Overflows)) ∧
    (Scalar.atMost 0 (resolveText source : Timings Binary64 × List (Problem Binary64)).1.delay =
        true ∧
      (Scalar.isFinite (resolveText source : Timings Binary64 × List (Problem Binary64)).1.delay =
        false ↔ ∃ parts, Accepts source parts ∧ ∃ delay ∈ parts.delay, delay.Overflows)) := by
  cases bound : (TimingParts.read? (trimBlanks source.toList)).bind
      (TimingParts.timings? : TimingParts → Option (Timings Binary64)) with
  | none =>
    have rejects : ∀ holds : TimingParts → Prop, ¬∃ parts, Accepts source parts ∧ holds parts := by
      rintro holds ⟨parts, accepts, -⟩
      obtain ⟨timings, values⟩ := Option.isSome_iff_exists.1 accepts.valued
      rw [accepts.read, Option.bind_some, values] at bound
      cases bound
    have finite : ¬Scalar.isFinite (0 : Binary64) = false := by decide
    simp only [resolveText, bound, Timings.none]
    exact ⟨⟨rfl, iff_of_false finite (rejects _)⟩, rfl, iff_of_false finite (rejects _)⟩
  | some timings =>
    obtain ⟨parts, read, values⟩ := Option.bind_eq_some_iff.1 bound
    have accepts : Accepts source parts := ⟨read, by rw [values]; rfl⟩
    obtain ⟨durationValue, delayValue, -⟩ := TimingParts.timings?_eq_some_iff.1 values
    have duration := Quantity.checked_millis durationValue
    have delay := TimingParts.checked_delay delayValue
    simp only [resolveText, bound, Timings.checked]
    have once := accepts.exists_iff
    exact ⟨⟨duration.1, duration.2.trans (once fun parts => parts.duration.Overflows).symm⟩,
      delay.1, delay.2.trans (once fun parts => ∃ delay ∈ parts.delay, delay.Overflows).symm⟩

/-- `10 ^ 306` seconds, written out. -/
def outOfRange : List Char :=
  '1' :: (List.replicate 306 '0' ++ ['s'])

/-- The number is finite and accepted without a problem, and the duration is infinite. A step that
takes this time plays for ever, and the offset of its last keyframe is not a number. -/
theorem resolveText_outOfRange :
    (resolveText (String.ofList outOfRange) : Timings Binary64 × List (Problem Binary64)) =
        (⟨.infinite false, 0, none⟩, []) ∧
      (Tree.animate (.expression (String.ofList outOfRange)) none).compile Settings.standard
          (.ofList [("opacity", .number (0 : Binary64))]) (.ofList [("opacity", .number 1)]) ∅ =
        ([⟨.timelineAnimation,
            [.ofList [("opacity", .number 0), ("offset", .number 0)],
              .ofList [("opacity", .number 1), ("offset", .number .nan)]],
            .infinite false, 0, none⟩], []) := by
  have resolved : (resolveText (String.ofList outOfRange) :
      Timings Binary64 × List (Problem Binary64)) = (⟨.infinite false, 0, none⟩, []) := by
    rewrite [resolveText, String.toList_ofList]
    decide +kernel
  have plain : Template.hasPlaceholder (String.ofList outOfRange) = false := by
    rewrite [Template.hasPlaceholder, String.toList_ofList]
    decide +kernel
  have same : (Timing.expression (String.ofList outOfRange) : Timing Binary64).resolve ∅ =
      (Timing.resolved ⟨.infinite false, 0, none⟩ : Timing Binary64).resolve ∅ := by
    simp only [resolve, plain, Bool.false_eq_true, if_false, resolved]
    decide +kernel
  have ran : ∀ walk : Traversal Binary64,
      walk.runAnimate ∅ (.expression (String.ofList outOfRange)) none =
        walk.runAnimate ∅ (.resolved ⟨.infinite false, 0, none⟩) none := by
    intro walk
    rw [Traversal.runAnimate, Traversal.runAnimate, same]
  refine ⟨resolved, ?_⟩
  rewrite [Tree.compile, Traversal.visit, ran]
  decide +kernel

end Timing

end Storyboard
