import Storyboard.Json

/-!
# Numbers in a document

The spelling of a number literal is read back as that literal, whatever follows it, as long as what
follows cannot extend a number (`Token.unsigned?_text`). The digits of a whole number have no zero
in front, which is what the reader asks of them.
-/

set_option autoImplicit false

namespace Storyboard

/-! ## Rows of digits -/

theorem Digit.digitChar_eq : ∀ digit : Digit, digit.val.digitChar = digit.toChar := by
  decide

namespace Token

theorem numberOf_concat (row : List Digit) (last : Digit) :
    numberOf (row ++ [last]) = 10 * numberOf row + last.val := by
  rw [numberOf, List.foldl_append, List.foldl_cons, List.foldl_nil]
  rfl

/-- A whole number is spelled by a row of digits that does not begin with a zero, unless it is the
zero alone. -/
theorem exists_row (number : Nat) :
    ∃ row : List Digit, Nat.toDigits 10 number = row.map Digit.toChar ∧ numberOf row = number ∧
      row ≠ [] ∧ ∀ rest, row = 0 :: rest → rest = [] := by
  induction number using Nat.strongRecOn with
  | ind number ih =>
    by_cases small : number < 10
    · refine ⟨[⟨number, small⟩], ?_, by simp [numberOf], by simp, ?_⟩
      · rw [Nat.toDigits_of_lt_base small, List.map_singleton, ← Digit.digitChar_eq]
      · intro rest same
        injection same with _ same
        exact same.symm
    · have less : number % 10 < 10 := Nat.mod_lt number (by decide)
      obtain ⟨row, spelled, value, some', noZero⟩ := ih (number / 10) (by omega)
      refine ⟨row ++ [⟨number % 10, less⟩], ?_, ?_, by simp, ?_⟩
      · rw [Nat.toDigits_of_base_le (by decide) (by omega), spelled, List.map_append,
          List.map_singleton, ← Digit.digitChar_eq]
      · rw [numberOf_concat, value]
        exact Nat.div_add_mod number 10
      · intro rest same
        cases row with
        | nil => exact absurd rfl some'
        | cons first others =>
          -- A zero in front would be all of the row, and the quotient would be zero.
          rw [List.cons_append, List.cons.injEq] at same
          obtain ⟨rfl, -⟩ := same
          rw [noZero others rfl] at value
          have zero : numberOf [(0 : Digit)] = 0 := rfl
          omega

theorem digits_append (row : List Digit) {rest : List Char}
    (stops : ∀ c ∈ rest.head?, Digit.ofChar? c = none) :
    digits (row.map Digit.toChar ++ rest) = (row, rest) := by
  induction row with
  | nil =>
    cases rest with
    | nil => rfl
    | cons c others =>
      rw [List.map_nil, List.nil_append, digits, stops c rfl]
  | cons digit others ih =>
    rw [List.map_cons, List.cons_append, digits, Digit.ofChar?_toChar, ih]

/-! ## Literals -/

/-- What follows cannot extend a number. -/
def EndsNumber (rest : List Char) : Prop :=
  ∀ c ∈ rest.head?, Digit.ofChar? c = none ∧ c ≠ '.' ∧ c ≠ 'e' ∧ c ≠ 'E'

theorem EndsNumber.cons {c : Char} (rest : List Char)
    (other : Digit.ofChar? c = none ∧ c ≠ '.' ∧ c ≠ 'e' ∧ c ≠ 'E') : EndsNumber (c :: rest) := by
  intro first same
  cases same
  exact other

theorem endsNumber_nil : EndsNumber [] :=
  fun _ none => absurd none (by simp)

theorem whole?_append (number : Nat) {rest : List Char}
    (stops : ∀ c ∈ rest.head?, Digit.ofChar? c = none) :
    whole? (Nat.toDigits 10 number ++ rest) = some (number, rest) := by
  obtain ⟨row, spelled, value, filled, noZero⟩ := exists_row number
  rw [whole?, spelled, digits_append row stops]
  cases row with
  | nil => exact absurd rfl filled
  | cons first others =>
    have admitted : ¬(first = 0 ∧ others ≠ []) := by
      rintro ⟨rfl, more⟩
      exact more (noZero others rfl)
    simp only [admitted, if_false, value]

theorem fraction?_append (fraction : List Digit) {rest : List Char}
    (stops : ∀ c ∈ rest.head?, Digit.ofChar? c = none ∧ c ≠ '.') :
    fraction? (Literal.fractionText fraction ++ rest) = some (fraction, rest) := by
  cases fraction with
  | nil =>
    rw [Literal.fractionText, List.isEmpty_nil, if_pos rfl, List.nil_append]
    unfold fraction?
    split
    · exact absurd rfl (stops '.' rfl).2
    · rfl
  | cons first others =>
    have read := digits_append (first :: others) fun c member => (stops c member).1
    rw [Literal.fractionText, List.isEmpty_cons, if_neg Bool.false_ne_true, List.cons_append,
      fraction?, read]

theorem exponent?_append (exponent : Option Int) {rest : List Char} (ends : EndsNumber rest) :
    exponent? (Literal.exponentText exponent ++ rest) = some (exponent, rest) := by
  cases exponent with
  | none =>
    rw [Literal.exponentText, List.nil_append]
    cases rest with
    | nil => rfl
    | cons c others =>
      obtain ⟨-, -, lower, upper⟩ := ends c rfl
      rw [exponent?, if_neg (not_or.2 ⟨lower, upper⟩)]
  | some exponent =>
    obtain ⟨row, spelled, value, filled, -⟩ := exists_row exponent.natAbs
    have read := digits_append row fun c member => (ends c member).1
    rw [Literal.exponentText, List.cons_append, List.cons_append, exponent?, if_pos (.inl rfl),
      spelled]
    cases row with
    | nil => exact absurd rfl filled
    | cons first others =>
      by_cases negative : exponent < 0
      · have back : -(exponent.natAbs : Int) = exponent := by omega
        simp only [if_pos negative, exponentSign, read, if_true, value, back]
      · have back : (exponent.natAbs : Int) = exponent := by omega
        simp only [if_neg negative, exponentSign, read, Bool.false_eq_true, if_false, value, back]

/-- What comes behind the fraction is an exponent mark or what follows the number. -/
theorem head?_exponentText_append (exponent : Option Int) {rest : List Char}
    (ends : EndsNumber rest) :
    ∀ c ∈ (Literal.exponentText exponent ++ rest).head?, Digit.ofChar? c = none ∧ c ≠ '.' := by
  cases exponent with
  | none => exact fun c member => ⟨(ends c member).1, (ends c member).2.1⟩
  | some exponent =>
    rintro c same
    cases same
    decide

/-- What comes behind the whole part is no digit. -/
theorem head?_fractionText_append (fraction : List Digit) (exponent : Option Int)
    {rest : List Char} (ends : EndsNumber rest) :
    ∀ c ∈ (Literal.fractionText fraction ++ (Literal.exponentText exponent ++ rest)).head?,
      Digit.ofChar? c = none := by
  cases fraction with
  | nil => exact fun c member => (head?_exponentText_append exponent ends c member).1
  | cons first others =>
    rintro c same
    cases same
    decide

/-- The spelling of a literal behind its sign is read as that literal. -/
theorem unsigned?_text (literal : Literal) {rest : List Char} (ends : EndsNumber rest) :
    unsigned? literal.negative (Nat.toDigits 10 literal.whole ++
        (Literal.fractionText literal.fraction ++
          (Literal.exponentText literal.exponent ++ rest))) =
      some (.number literal, rest) := by
  have whole := whole?_append literal.whole
    (head?_fractionText_append literal.fraction literal.exponent ends)
  have fraction := fraction?_append literal.fraction
    (head?_exponentText_append literal.exponent ends)
  have exponent := exponent?_append literal.exponent ends
  simp only [unsigned?, whole, fraction, exponent, Option.bind_eq_bind, Option.bind_some]
  rfl

/-- A text that begins with a digit is read as a number without a sign. -/
theorem read?_digit (digit : Digit) (rest : List Char) :
    read? (digit.toChar :: rest) = unsigned? false (digit.toChar :: rest) := by
  match digit with
  | 0 | 1 | 2 | 3 | 4 | 5 | 6 | 7 | 8 | 9 => rfl

/-- The spelling of a number is read as the number. -/
theorem read?_number (literal : Literal) {rest : List Char} (ends : EndsNumber rest) :
    read? (literal.text ++ rest) = some (.number literal, rest) := by
  have read := unsigned?_text literal ends
  have parts : literal.text ++ rest = (if literal.negative then ['-'] else []) ++
      (Nat.toDigits 10 literal.whole ++ (Literal.fractionText literal.fraction ++
        (Literal.exponentText literal.exponent ++ rest))) := by
    simp only [Literal.text, List.append_assoc]
  rw [parts]
  cases negative : literal.negative with
  | true =>
    rw [negative] at read
    exact read
  | false =>
    rw [negative] at read
    obtain ⟨row, spelled, -, filled, -⟩ := exists_row literal.whole
    rw [if_neg Bool.false_ne_true, List.nil_append]
    rw [spelled] at read ⊢
    cases row with
    | nil => exact absurd rfl filled
    | cons first others => exact (read?_digit first _).trans read

end Token

end Storyboard
