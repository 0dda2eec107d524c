import Mathlib.Data.List.TakeWhile
import Storyboard.Proofs.Text.Templates
import Storyboard.Timing

/-!
# The grammar of timing expressions

A timing expression is an amount of time, optionally behind blanks another amount, and optionally
behind blanks an easing. The grammar is written down here without a word about reading
(`TimingGrammar.Spells`): a text is an expression when it can be taken apart in some way. Nothing
in the grammar says where one part ends and the next begins.

The numbers of the grammar are digits with at most one point (`DecimalNumber`). The reader takes any
row of digits and points for an amount first and looks for its value later. Both come to the same:
every number has the value that its digits write (`DecimalNumber.read?_text`), and a row of digits
and points that has a value is a number (`DecimalNumber.exists_of_read?`).
-/

set_option autoImplicit false

namespace Storyboard

/-! ## The grammar -/

/-- A number as it is written: an optional minus, and digits with at most one point. There is at
least one digit. -/
structure DecimalNumber where
  negative : Bool
  whole : List Char
  /-- The digits behind the point, if there is a point. -/
  fraction : Option (List Char)
  digits : ∀ c ∈ whole ++ fraction.getD [], c.isDigit = true
  filled : whole ++ fraction.getD [] ≠ []

namespace DecimalNumber

/-- The digits and the point. -/
def body (number : DecimalNumber) : List Char :=
  number.whole ++
    match number.fraction with
    | some digits => '.' :: digits
    | none => []

/-- How the number is written. -/
def text (number : DecimalNumber) : List Char :=
  (if number.negative then ['-'] else []) ++ number.body

/-- The number that is written: all digits, scaled by those behind the point. -/
def numeral (number : DecimalNumber) : Numeral :=
  .finite number.negative (Numeral.ofDigits (number.whole ++ number.fraction.getD []))
    (0 - (number.fraction.getD []).length)

end DecimalNumber

namespace TimingGrammar

/-- How a unit is written, and whether it is the second: not at all, or as `ms` or `s` in any
case. -/
inductive SpellsUnit : List Char → Bool → Prop where
  | absent : SpellsUnit [] false
  | milliseconds {text : List Char} (spelled : text.map Char.toLower = ['m', 's']) :
      SpellsUnit text false
  | seconds {text : List Char} (spelled : text.map Char.toLower = ['s']) : SpellsUnit text true

/-- An amount of time: a number, and whether its unit is the second. -/
structure Amount where
  number : DecimalNumber
  inSeconds : Bool

/-- An amount is a number with its unit right behind it. -/
inductive SpellsAmount : List Char → Amount → Prop where
  | amount {number : DecimalNumber} {unit : List Char} {inSeconds : Bool}
      (spelled : SpellsUnit unit inSeconds) :
      SpellsAmount (number.text ++ unit) ⟨number, inSeconds⟩

/-- A word of letters and hyphens. -/
def IsWord (word : List Char) : Prop :=
  word ≠ [] ∧ ∀ c ∈ word, c = '-' ∨ c.isAlpha = true

/-- An easing is a word, and it may have arguments in parentheses, which are not empty and stand on
one line. -/
inductive SpellsEasing : List Char → List Char → Prop where
  | keyword {word : List Char} (letters : IsWord word) : SpellsEasing word word
  | function {word arguments : List Char} (letters : IsWord word) (filled : arguments ≠ [])
      (line : '\n' ∉ arguments) :
      SpellsEasing (word ++ '(' :: (arguments ++ [')'])) (word ++ '(' :: (arguments ++ [')']))

/-- A part that may be left out, and has blanks in front of it if it is there. -/
inductive BehindBlanks {α : Type} (spells : List Char → α → Prop) :
    List Char → Option α → Prop where
  | absent : BehindBlanks spells [] none
  | behind {blanks text : List Char} {part : α} (some : blanks ≠ [])
      (white : ∀ c ∈ blanks, isBlank c = true) (spelled : spells text part) :
      BehindBlanks spells (blanks ++ text) (.some part)

end TimingGrammar

/-- The parts of a timing expression by the grammar. -/
structure TimingSpelling where
  duration : TimingGrammar.Amount
  delay : Option TimingGrammar.Amount
  easing : Option (List Char)

namespace TimingGrammar

/-- **The grammar**: an amount, behind blanks maybe another amount, and behind blanks maybe an
easing. -/
inductive Spells : List Char → TimingSpelling → Prop where
  | parts {first second third : List Char} {duration : Amount} {delay : Option Amount}
      {easing : Option (List Char)} (amount : SpellsAmount first duration)
      (waits : BehindBlanks SpellsAmount second delay)
      (eased : BehindBlanks SpellsEasing third easing) :
      Spells (first ++ (second ++ third)) ⟨duration, delay, easing⟩

/-- The value of an amount is a finite number, which makes so many whole milliseconds. -/
def Amount.Takes {ν : Type} [Scalar ν] (amount : Amount) (millis : ν) : Prop :=
  ∃ value, Scalar.ofNumeral? amount.number.numeral = some value ∧
    Scalar.isFinite value = true ∧
      millis = Scalar.floor (if amount.inSeconds then value * Scalar.ofCount 1000 else value)

/-- The milliseconds of an amount that may be absent, which is no time then. -/
def DelayTakes {ν : Type} [Scalar ν] (delay : Option Amount) (millis : ν) : Prop :=
  match delay with
  | some amount => amount.Takes millis
  | none => millis = 0

/-! ## Characters -/

theorem toNat_of_isDigit {c : Char} (digit : c.isDigit = true) :
    48 ≤ c.toNat ∧ c.toNat ≤ 57 := by
  delta Char.isDigit at digit
  simp only [Bool.and_eq_true, decide_eq_true_eq, ge_iff_le, UInt32.le_iff_toNat_le] at digit
  exact digit

theorem toNat_of_isAlpha {c : Char} (letter : c.isAlpha = true) :
    (65 ≤ c.toNat ∧ c.toNat ≤ 90) ∨ (97 ≤ c.toNat ∧ c.toNat ≤ 122) := by
  delta Char.isAlpha Char.isUpper Char.isLower at letter
  simp only [Bool.or_eq_true, Bool.and_eq_true, decide_eq_true_eq, ge_iff_le,
    UInt32.le_iff_toNat_le] at letter
  exact letter

/-- A character that can stand in an amount is a digit, or the point. -/
theorem toNat_of_isAmountChar {c : Char} (amount : TimingParts.isAmountChar c = true) :
    (48 ≤ c.toNat ∧ c.toNat ≤ 57) ∨ c.toNat = 46 := by
  rw [TimingParts.isAmountChar, Bool.or_eq_true, beq_iff_eq] at amount
  rcases amount with digit | rfl
  · exact .inl (toNat_of_isDigit digit)
  · exact .inr rfl

/-- A character that can stand in a word is a letter, or the hyphen. -/
theorem toNat_of_wordChar {c : Char} (letter : c = '-' ∨ c.isAlpha = true) :
    c.toNat = 45 ∨ (65 ≤ c.toNat ∧ c.toNat ≤ 90) ∨ (97 ≤ c.toNat ∧ c.toNat ≤ 122) := by
  rcases letter with rfl | letter
  · exact .inl rfl
  · exact .inr (toNat_of_isAlpha letter)

/-- A blank of ASCII is a space or a control character. -/
theorem isBlank_eq_false {c : Char} (above : 32 < c.toNat) (ascii : c.toNat < 128) :
    isBlank c = false := by
  simp only [isBlank, Bool.or_eq_false_iff, Bool.and_eq_false_iff, decide_eq_false_iff_not,
    beq_eq_false_iff_ne]
  omega

theorem isAmountChar_eq_false {c : Char} (other : c.toNat ≠ 46)
    (outside : c.toNat < 48 ∨ 57 < c.toNat) : TimingParts.isAmountChar c = false := by
  apply Bool.eq_false_iff.2
  intro amount
  have range := toNat_of_isAmountChar amount
  omega

/-- The letters of a word are not blank, and they cannot stand in an amount. -/
theorem wordChar_kinds {c : Char} (letter : c = '-' ∨ c.isAlpha = true) :
    isBlank c = false ∧ TimingParts.isAmountChar c = false := by
  have range := toNat_of_wordChar letter
  exact ⟨isBlank_eq_false (by omega) (by omega), isAmountChar_eq_false (by omega) (by omega)⟩

/-- Lowering a letter keeps its code or adds the distance of the two cases. -/
theorem toNat_of_toLower {c lowered : Char} (lower : c.toLower = lowered) :
    c.toNat = lowered.toNat ∨ c.toNat + 32 = lowered.toNat := by
  rw [← lower]
  by_cases upper : 65 ≤ c.toNat ∧ c.toNat ≤ 90
  · right
    have inside : c.val ≥ 'A'.val ∧ c.val ≤ 'Z'.val := by
      simpa [UInt32.le_iff_toNat_le] using upper
    have sum : (c.val + ('a'.val - 'A'.val)).toNat = c.toNat + 32 := by
      rw [UInt32.toNat_add]
      exact Nat.mod_eq_of_lt (show c.toNat + 32 < 2 ^ 32 by omega)
    delta Char.toLower
    rw [dif_pos inside]
    exact sum.symm
  · left
    have outside : ¬(c.val ≥ 'A'.val ∧ c.val ≤ 'Z'.val) := by
      simpa [UInt32.le_iff_toNat_le] using upper
    delta Char.toLower
    rw [dif_neg outside]

/-- The letter s is that letter in one of the two cases. -/
theorem eq_of_toLower_s {c : Char} (lower : c.toLower = 's') : c = 's' ∨ c = 'S' := by
  simpa [← Char.toNat_inj] using toNat_of_toLower lower

theorem eq_of_toLower_m {c : Char} (lower : c.toLower = 'm') : c = 'm' ∨ c = 'M' := by
  simpa [← Char.toNat_inj] using toNat_of_toLower lower

/-- The letter s of ASCII is one of the two that the reader takes for the second. -/
theorem isLetterS_iff {c : Char} (ascii : c.toNat < 128) :
    TimingParts.isLetterS c = true ↔ c.toLower = 's' := by
  have short : (c.toNat == 0x17F) = false := beq_eq_false_iff_ne.2 (by omega)
  rw [TimingParts.isLetterS, short, Bool.or_false, Bool.or_eq_true, beq_iff_eq, beq_iff_eq]
  constructor
  · rintro (rfl | rfl) <;> decide
  · exact eq_of_toLower_s

end TimingGrammar

/-! ## Numbers -/

namespace DecimalNumber

open TimingGrammar

/-- The digits and the point are a row that an amount can begin with. -/
theorem isAmountChar_of_mem_body (number : DecimalNumber) {c : Char} (member : c ∈ number.body) :
    TimingParts.isAmountChar c = true := by
  have digit : c ∈ number.whole ++ number.fraction.getD [] ∨ c = '.' := by
    unfold body at member
    cases fraction : number.fraction with
    | none => exact .inl (by simpa [fraction] using member)
    | some digits =>
      simp only [fraction, List.mem_append, List.mem_cons] at member
      simp only [Option.getD_some, List.mem_append]
      rcases member with whole | point | behind
      · exact .inl (.inl whole)
      · exact .inr point
      · exact .inl (.inr behind)
  rw [TimingParts.isAmountChar, Bool.or_eq_true, beq_iff_eq]
  exact digit.imp (number.digits c) id

theorem body_ne_nil (number : DecimalNumber) : number.body ≠ [] := by
  have filled := number.filled
  unfold body
  cases fraction : number.fraction with
  | none => simpa [fraction] using filled
  | some digits => simp

/-- Neither a minus nor a plus begins the digits. -/
theorem unsigned_body (number : DecimalNumber) {c : Char} (member : c ∈ number.body) :
    c ≠ '-' ∧ c ≠ '+' := by
  have amount := number.isAmountChar_of_mem_body member
  constructor <;> (rintro rfl; exact absurd amount (by decide))

/-- The sign of a number is taken off. -/
theorem splitSign_text (number : DecimalNumber) :
    Numeral.splitSign number.text = (number.negative, number.body) := by
  unfold text
  cases number.negative with
  | true => rfl
  | false =>
    rw [if_neg Bool.false_ne_true, List.nil_append]
    cases shape : number.body with
    | nil => exact absurd shape number.body_ne_nil
    | cons c rest =>
      have first := number.unsigned_body (c := c) (by rw [shape]; exact List.mem_cons_self)
      unfold Numeral.splitSign
      split
      · next same => exact absurd (List.cons.inj same).1 first.1
      · next same => exact absurd (List.cons.inj same).1 first.2
      · rfl

/-- The minus of a number is taken off, whatever follows the number. -/
theorem splitMinus_text (number : DecimalNumber) (rest : List Char) :
    TimingParts.splitMinus (number.text ++ rest) =
      (if number.negative then ['-'] else [], number.body ++ rest) := by
  unfold text
  cases number.negative with
  | true => rfl
  | false =>
    rw [if_neg Bool.false_ne_true, List.nil_append]
    cases shape : number.body with
    | nil => exact absurd shape number.body_ne_nil
    | cons c more =>
      have first := number.unsigned_body (c := c) (by rw [shape]; exact List.mem_cons_self)
      rw [List.cons_append]
      unfold TimingParts.splitMinus
      split
      · next same => exact absurd (List.cons.inj same).1 first.1
      · rfl

/-- The digits of a number are read as what it writes. -/
theorem digits?_body (number : DecimalNumber) :
    Numeral.digits? number.negative number.body = some number.numeral := by
  have digits := number.digits
  have filled := number.filled
  unfold Numeral.digits? body numeral
  cases fraction : number.fraction with
  | none =>
    rw [fraction, Option.getD_none, List.append_nil] at digits filled
    have taken : number.whole.takeWhile Char.isDigit = number.whole :=
      List.takeWhile_eq_self_iff.2 digits
    have left : number.whole.dropWhile Char.isDigit = [] := List.dropWhile_eq_nil_iff.2 digits
    simp [taken, left, filled, Numeral.splitFraction, Numeral.exponent?]
  | some behind =>
    rw [fraction, Option.getD_some] at digits filled
    have wholeDigits : ∀ c ∈ number.whole, c.isDigit = true :=
      fun c member => digits c (List.mem_append_left _ member)
    have point : ∀ c tail, '.' :: behind = c :: tail → c.isDigit = false := by
      intro c tail begins
      cases begins
      decide
    obtain ⟨taken, left⟩ := takeWhile_row wholeDigits point
    have digitsBehind : ∀ c ∈ behind, c.isDigit = true :=
      fun c member => digits c (List.mem_append_right _ member)
    have takenBehind : behind.takeWhile Char.isDigit = behind :=
      List.takeWhile_eq_self_iff.2 digitsBehind
    have leftBehind : behind.dropWhile Char.isDigit = [] := List.dropWhile_eq_nil_iff.2 digitsBehind
    have some : ¬(number.whole = [] ∧ behind = []) := by
      rintro ⟨noWhole, noFraction⟩
      exact filled (by rw [noWhole, noFraction, List.append_nil])
    simp [taken, left, takenBehind, leftBehind, some, Numeral.splitFraction, Numeral.exponent?]

/-- A number of the grammar is read as what it writes. -/
theorem read?_text (number : DecimalNumber) :
    Numeral.read? number.text = some number.numeral := by
  rw [Numeral.read?, number.splitSign_text]
  simp only [number.digits?_body, Option.some_or]

/-- A row of digits and points is no word for an infinity or for no number. -/
theorem word?_of_isAmountChar {row : List Char} (negative : Bool)
    (amount : ∀ c ∈ row, TimingParts.isAmountChar c = true) :
    Numeral.word? negative row = none := by
  -- Each of the words has the letter n, which no digit becomes in lower case.
  have noLetter : 'n' ∉ row.map Char.toLower := by
    intro member
    obtain ⟨c, inRow, lower⟩ := List.mem_map.1 member
    have range := toNat_of_isAmountChar (amount c inRow)
    have letter := toNat_of_toLower lower
    have code : 'n'.toNat = 110 := rfl
    omega
  have differs : ∀ word : List Char, 'n' ∈ word →
      String.ofList (row.map Char.toLower) ≠ String.ofList word := by
    intro word letter same
    exact noLetter (String.ofList_inj.1 same ▸ letter)
  unfold Numeral.word?
  rw [if_neg (differs ['n', 'a', 'n'] (by decide)), if_neg]
  rintro (same | same)
  · exact differs ['i', 'n', 'f'] (by decide) same
  · exact differs ['i', 'n', 'f', 'i', 'n', 'i', 't', 'y'] (by decide) same

/-- A row of digits and points that is read without a sign is a number of the grammar. -/
theorem exists_of_digits? {row : List Char} {numeral : Numeral} (negative : Bool)
    (amount : ∀ c ∈ row, TimingParts.isAmountChar c = true)
    (read : Numeral.digits? negative row = some numeral) :
    ∃ number : DecimalNumber, number.negative = negative ∧ number.body = row := by
  have parted : row.takeWhile Char.isDigit ++ row.dropWhile Char.isDigit = row :=
    List.takeWhile_append_dropWhile
  have whole : ∀ c ∈ row.takeWhile Char.isDigit, c.isDigit = true :=
    List.all_eq_true.1 List.all_takeWhile
  have notDigit := List.head?_dropWhile_not Char.isDigit row
  unfold Numeral.digits? at read
  cases behind : row.dropWhile Char.isDigit with
  | nil =>
    rw [behind, List.append_nil] at parted
    rw [behind] at read
    have filled : row.takeWhile Char.isDigit ≠ [] := by
      intro empty
      simp [empty, Numeral.splitFraction] at read
    refine ⟨⟨negative, row.takeWhile Char.isDigit, none, ?_, ?_⟩, rfl, ?_⟩
    · simpa using whole
    · simpa using filled
    · simpa [body] using parted
  | cons c rest =>
    rw [behind] at parted read notDigit
    have inRow : ∀ d ∈ c :: rest, TimingParts.isAmountChar d = true :=
      fun d member => amount d (parted ▸ List.mem_append_right _ member)
    obtain rfl : c = '.' := by
      have first := inRow c List.mem_cons_self
      simpa [TimingParts.isAmountChar, show c.isDigit = false by simpa using notDigit] using first
    have fraction : ∀ d ∈ rest.takeWhile Char.isDigit, d.isDigit = true :=
      List.all_eq_true.1 List.all_takeWhile
    have partedBehind : rest.takeWhile Char.isDigit ++ rest.dropWhile Char.isDigit = rest :=
      List.takeWhile_append_dropWhile
    simp only [Numeral.splitFraction] at read
    split at read
    · exact absurd read (by simp)
    · next filled =>
      -- Behind the digits there is nothing: an exponent would begin with a letter.
      have ended : rest.dropWhile Char.isDigit = [] := by
        cases tail : rest.dropWhile Char.isDigit with
        | nil => rfl
        | cons mark more =>
          have member : mark ∈ rest := partedBehind ▸ List.mem_append_right _
            (tail ▸ List.mem_cons_self)
          have kind := inRow mark (List.mem_cons_of_mem _ member)
          have noMark : ¬(mark = 'e' ∨ mark = 'E') := by
            rintro (rfl | rfl) <;> exact absurd kind (by decide)
          simp [tail, Numeral.exponent?, noMark] at read
      rw [ended, List.append_nil] at partedBehind
      refine ⟨⟨negative, row.takeWhile Char.isDigit, some (rest.takeWhile Char.isDigit), ?_, ?_⟩,
        rfl, ?_⟩
      · intro d member
        exact (List.mem_append.1 member).elim (whole d) (fraction d)
      · intro empty
        exact filled (List.append_eq_nil_iff.1 empty)
      · rw [body]
        simp only [partedBehind]
        exact parted

/-- A row of digits and points with a minus or without one that has a value is a number of the
grammar. -/
theorem exists_of_read? {row : List Char} {numeral : Numeral} (negative : Bool)
    (amount : ∀ c ∈ row, TimingParts.isAmountChar c = true)
    (read : Numeral.read? ((if negative then ['-'] else []) ++ row) = some numeral) :
    ∃ number : DecimalNumber, number.text = (if negative then ['-'] else []) ++ row := by
  have split : Numeral.splitSign ((if negative then ['-'] else []) ++ row) = (negative, row) := by
    cases negative with
    | true => rfl
    | false =>
      rw [if_neg Bool.false_ne_true, List.nil_append]
      unfold Numeral.splitSign
      split
      · exact absurd (amount '-' List.mem_cons_self) (by decide)
      · exact absurd (amount '+' List.mem_cons_self) (by decide)
      · rfl
  rw [Numeral.read?, split] at read
  simp only [word?_of_isAmountChar negative amount, Option.or_none] at read
  obtain ⟨number, sign, same⟩ := exists_of_digits? negative amount read
  exact ⟨number, by rw [text, sign, same]⟩

end DecimalNumber

end Storyboard
