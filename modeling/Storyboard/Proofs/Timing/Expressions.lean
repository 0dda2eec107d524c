import Storyboard.Proofs.Timing.Grammar

/-!
# Timing expressions are read by their grammar

The reader splits a text in one way only, by the first character that cannot belong to a part. What
can follow an amount is a blank or nothing, and an easing does not begin like an amount, so a text
that can be taken apart is split where the grammar splits it (`TimingGrammar.read?_of_spells`). And
whatever the reader splits into parts that have values can be taken apart in this way
(`TimingGrammar.exists_spells_of_timings?`).

So resolving a text of ASCII characters accepts exactly the expressions of the grammar with finite
amounts, and it rejects every other text with one message (`Timing.resolveText_follows_grammar`).
Outside of ASCII the reader accepts a little more: it ignores case as Unicode does, where the long s
is a letter s and the Kelvin sign a letter k.
-/

set_option autoImplicit false

namespace Storyboard

namespace TimingParts

/-- The parts have values when the amounts have, and an absent delay counts as zero. -/
theorem timings?_eq_some_iff {ν : Type} [Scalar ν] {parts : TimingParts}
    {timings : Timings ν} :
    parts.timings? = some timings ↔
      parts.duration.millis? = some timings.duration ∧
        (parts.delay.map Quantity.millis?).getD (some 0) = some timings.delay ∧
        timings.easing = parts.easing.map String.ofList := by
  obtain ⟨length, wait, word⟩ := parts
  obtain ⟨duration, delay, easing⟩ := timings
  cases wait with
  | none =>
    simp only [TimingParts.timings?, Option.bind_eq_bind, Option.bind_eq_some_iff]
    grind
  | some quantity =>
    simp only [TimingParts.timings?, Option.bind_eq_bind, Option.bind_eq_some_iff]
    grind

end TimingParts

/-! ## Expressions of the grammar are read -/

namespace TimingGrammar

open TimingParts

/-- An amount as the reader gives it. -/
def Amount.quantity (amount : Amount) : Quantity :=
  ⟨amount.number.text, amount.inSeconds⟩

/-- The text behind a part: nothing, or something that begins with a blank. -/
def Ends (rest : List Char) : Prop :=
  ∀ c tail, rest = c :: tail → isBlank c = true

theorem ends_nil : Ends [] := by
  intro c tail empty
  cases empty

/-- A part that is there begins with a blank, and only blanks stand in front of it. -/
theorem BehindBlanks.exists_cons {α : Type} {spells : List Char → α → Prop} {text : List Char}
    {part : α} (spelled : BehindBlanks spells text (some part)) :
    ∃ blank others words, text = blank :: (others ++ words) ∧ isBlank blank = true ∧
      (∀ c ∈ others, isBlank c = true) ∧ spells words part := by
  cases spelled with
  | @behind blanks words _ some white spelled =>
    cases blanks with
    | nil => exact absurd rfl some
    | cons blank others =>
      obtain ⟨first, rest⟩ := List.forall_mem_cons.1 white
      exact ⟨blank, others, words, rfl, first, rest, spelled⟩

theorem BehindBlanks.ends {α : Type} {spells : List Char → α → Prop} {text : List Char}
    {part : Option α} (spelled : BehindBlanks spells text part) {rest : List Char}
    (ends : Ends rest) : Ends (text ++ rest) := by
  cases part with
  | none =>
    cases spelled
    exact ends
  | some part =>
    obtain ⟨blank, others, words, rfl, white, -⟩ := spelled.exists_cons
    intro c tail begins
    cases begins
    exact white

/-- A blank begins no unit, and it cannot stand in an amount. -/
theorem blank_kinds {c : Char} (blank : isBlank c = true) :
    isAmountChar c = false ∧ isLetterS c = false ∧ (c == 'm' || c == 'M') = false := by
  have differs : ∀ other : Char, isBlank other = false → c ≠ other := by
    rintro other solid rfl
    exact absurd blank (by rw [solid]; exact Bool.false_ne_true)
  refine ⟨Bool.eq_false_iff.2 fun amount => ?_, ?_, ?_⟩
  · have range := toNat_of_isAmountChar amount
    exact absurd blank (by rw [isBlank_eq_false (by omega) (by omega)]; exact Bool.false_ne_true)
  · have long : c.toNat ≠ 0x17F := by
      intro code
      simp [isBlank, code] at blank
    rw [isLetterS, beq_eq_false_iff_ne.2 (differs 's' (by decide)),
      beq_eq_false_iff_ne.2 (differs 'S' (by decide)), beq_eq_false_iff_ne.2 long]
    rfl
  · rw [beq_eq_false_iff_ne.2 (differs 'm' (by decide)),
      beq_eq_false_iff_ne.2 (differs 'M' (by decide))]
    rfl

/-- A unit is split off in front of whatever ends an amount. -/
theorem splitUnit_of_spells {unit rest : List Char} {inSeconds : Bool}
    (spelled : SpellsUnit unit inSeconds) (ends : Ends rest) :
    splitUnit (unit ++ rest) = (inSeconds, rest) := by
  cases spelled with
  | absent =>
    cases rest with
    | nil => rfl
    | cons c tail =>
      obtain ⟨-, notS, notM⟩ := blank_kinds (ends c tail rfl)
      rw [List.nil_append]
      cases tail with
      | nil => simp [splitUnit, notS]
      | cons next after => simp only [splitUnit, notS, notM, Bool.false_and, Bool.false_eq_true,
          if_false]
  | milliseconds spelled =>
    simp only [List.map_eq_cons_iff, List.map_eq_nil_iff] at spelled
    obtain ⟨m, _, rfl, lowerM, s, _, rfl, lowerS, rfl⟩ := spelled
    rcases eq_of_toLower_m lowerM with rfl | rfl <;>
      rcases eq_of_toLower_s lowerS with rfl | rfl <;> rfl
  | seconds spelled =>
    simp only [List.map_eq_cons_iff, List.map_eq_nil_iff] at spelled
    obtain ⟨s, _, rfl, lower, rfl⟩ := spelled
    rcases eq_of_toLower_s lower with rfl | rfl <;> rfl

/-- Nothing of a unit, or of what ends an amount, can stand in its digits. -/
theorem stops_of_spellsUnit {unit rest : List Char} {inSeconds : Bool}
    (spelled : SpellsUnit unit inSeconds) (ends : Ends rest) :
    ∀ c tail, unit ++ rest = c :: tail → isAmountChar c = false := by
  intro c tail begins
  have letter : ∀ lowered others, unit.map Char.toLower = lowered :: others →
      (lowered = 'm' ∨ lowered = 's') → isAmountChar c = false := by
    intro lowered others mapped kind
    cases unit with
    | nil => cases mapped
    | cons first more =>
      obtain ⟨rfl, -⟩ := List.cons.inj begins
      have codes := toNat_of_toLower (List.cons.inj mapped).1
      rcases kind with rfl | rfl
      · have code : 'm'.toNat = 109 := rfl
        exact isAmountChar_eq_false (by omega) (by omega)
      · have code : 's'.toNat = 115 := rfl
        exact isAmountChar_eq_false (by omega) (by omega)
  cases spelled with
  | absent => exact (blank_kinds (ends c tail begins)).1
  | milliseconds spelled => exact letter 'm' ['s'] spelled (.inl rfl)
  | seconds spelled => exact letter 's' [] spelled (.inr rfl)

/-- An amount is read whole, in front of whatever ends it. -/
theorem quantity?_of_spells {text rest : List Char} {amount : Amount}
    (spelled : SpellsAmount text amount) (ends : Ends rest) :
    quantity? (text ++ rest) = some (amount.quantity, rest) := by
  cases spelled with
  | @amount number unit inSeconds unitSpelled =>
    obtain ⟨taken, left⟩ := takeWhile_row
      (fun c member => number.isAmountChar_of_mem_body (c := c) member)
      (stops_of_spellsUnit unitSpelled ends)
    rw [quantity?, List.append_assoc, number.splitMinus_text]
    simp only [taken, left, if_neg number.body_ne_nil, splitUnit_of_spells unitSpelled ends]
    rfl

/-- An easing begins with the characters of its word, and they are followed by a parenthesis or by
nothing. -/
theorem SpellsEasing.exists_word {text easing : List Char} (spelled : SpellsEasing text easing) :
    ∃ word tail, text = word ++ tail ∧ IsWord word ∧ ∀ c more, tail = c :: more → c = '(' := by
  cases spelled with
  | keyword letters =>
    exact ⟨text, [], (List.append_nil text).symm, letters, fun c more empty => by cases empty⟩
  | @function word arguments letters =>
    exact ⟨word, _, rfl, letters, fun c more begins => (List.cons.inj begins).1.symm⟩

theorem SpellsEasing.solid {text easing : List Char} (spelled : SpellsEasing text easing) :
    ∀ c rest, text = c :: rest → isBlank c = false := by
  obtain ⟨word, tail, rfl, ⟨filled, letters⟩, -⟩ := spelled.exists_word
  intro c rest begins
  cases word with
  | nil => exact absurd rfl filled
  | cons first more =>
    cases begins
    exact (wordChar_kinds (letters c List.mem_cons_self)).1

/-- An easing is not taken for an amount: behind its hyphens no digits come. -/
theorem SpellsEasing.quantity?_eq_none {text easing : List Char}
    (spelled : SpellsEasing text easing) : quantity? text = none := by
  obtain ⟨word, tail, rfl, ⟨filled, letters⟩, opens⟩ := spelled.exists_word
  have stops : ∀ row : List Char, (∀ c ∈ row, c = '-' ∨ c.isAlpha = true) →
      (row ++ tail).takeWhile isAmountChar = [] := by
    intro row rowLetters
    cases row with
    | nil =>
      cases tail with
      | nil => rfl
      | cons c more =>
        obtain rfl := opens c more rfl
        rfl
    | cons c more =>
      have other := (wordChar_kinds (rowLetters c List.mem_cons_self)).2
      rw [List.cons_append, List.takeWhile_cons, other]
      rfl
  cases word with
  | nil => exact absurd rfl filled
  | cons first more =>
    have others : ∀ c ∈ more, c = '-' ∨ c.isAlpha = true :=
      fun c member => letters c (List.mem_cons_of_mem _ member)
    by_cases minus : first = '-'
    · subst minus
      simp only [quantity?, List.cons_append, splitMinus, stops more others, if_true]
    · have kept : splitMinus (first :: more ++ tail) = ([], first :: more ++ tail) := by
        rw [List.cons_append]
        unfold splitMinus
        split
        · next same => exact absurd (List.cons.inj same).1 minus
        · rfl
      simp only [quantity?, kept, stops (first :: more) letters, if_true]

theorem isEasingChar_of_wordChar {c : Char} (letter : c = '-' ∨ c.isAlpha = true) :
    isEasingChar c = true := by
  rcases letter with rfl | letter
  · decide
  · simp [isEasingChar, letter]

/-- An easing is recognised, and it is kept as it is written. -/
theorem SpellsEasing.isEasing {text easing : List Char} (spelled : SpellsEasing text easing) :
    TimingParts.isEasing text = true ∧ easing = text := by
  cases spelled with
  | keyword letters =>
    have taken : text.takeWhile isEasingChar = text :=
      List.takeWhile_eq_self_iff.2 fun c member => isEasingChar_of_wordChar (letters.2 c member)
    have left : text.dropWhile isEasingChar = [] :=
      List.dropWhile_eq_nil_iff.2 fun c member => isEasingChar_of_wordChar (letters.2 c member)
    simp [TimingParts.isEasing, taken, left, letters.1]
  | @function word arguments letters filled line =>
    have opens : ∀ c tail, '(' :: (arguments ++ [')']) = c :: tail → isEasingChar c = false := by
      intro c tail begins
      cases begins
      decide
    obtain ⟨taken, left⟩ :=
      takeWhile_row (fun c member => isEasingChar_of_wordChar (letters.2 c member)) opens
    simp [TimingParts.isEasing, taken, left, letters.1, closesArguments, filled, line]

/-- An easing at the end, or none, is read. -/
theorem easing?_of_spells {text : List Char} {easing : Option (List Char)}
    (spelled : BehindBlanks SpellsEasing text easing) : easing? text = some easing := by
  cases easing with
  | none =>
    cases spelled
    rfl
  | some easing =>
    obtain ⟨blank, others, words, rfl, white, whites, easingSpelled⟩ := spelled.exists_cons
    obtain ⟨recognised, rfl⟩ := easingSpelled.isEasing
    have skipped := (Template.skipBlanks_append whites easingSpelled.solid).1
    simp only [easing?, skipped, white, recognised, Bool.and_self, if_true]

/-- An amount begins with a minus, a digit or the point. -/
theorem SpellsAmount.solid {text : List Char} {amount : Amount}
    (spelled : SpellsAmount text amount) (rest : List Char) :
    ∀ c tail, text ++ rest = c :: tail → isBlank c = false := by
  cases spelled with
  | @amount number unit inSeconds unitSpelled =>
    intro c tail begins
    have member : c ∈ number.text := by
      have filled : number.text ≠ [] := by
        intro empty
        exact number.body_ne_nil (List.append_eq_nil_iff.1 empty).2
      cases shape : number.text with
      | nil => exact absurd shape filled
      | cons first others =>
        rw [shape] at begins
        rw [← (List.cons.inj begins).1]
        exact List.mem_cons_self
    rcases List.mem_append.1 member with sign | digits
    · have minus : c = '-' := by
        cases negative : number.negative <;> simp_all
      rw [minus]
      decide
    · have range := toNat_of_isAmountChar (number.isAmountChar_of_mem_body digits)
      exact isBlank_eq_false (by omega) (by omega)

/-- What follows the duration is split into delay and easing as the grammar splits it. -/
theorem delayAndEasing?_of_spells {second third : List Char} {delay : Option Amount}
    {easing : Option (List Char)} (waits : BehindBlanks SpellsAmount second delay)
    (eased : BehindBlanks SpellsEasing third easing) :
    delayAndEasing? (second ++ third) = some (delay.map Amount.quantity, easing) := by
  have read := easing?_of_spells eased
  cases delay with
  | none =>
    cases waits
    rw [List.nil_append]
    cases easing with
    | none =>
      cases eased
      rfl
    | some easing =>
      obtain ⟨blank, others, words, rfl, white, whites, easingSpelled⟩ := eased.exists_cons
      have skipped := (Template.skipBlanks_append whites easingSpelled.solid).1
      simp only [delayAndEasing?, white, if_true, skipped, easingSpelled.quantity?_eq_none, read]
      rfl
  | some amount =>
    obtain ⟨blank, others, words, rfl, white, whites, amountSpelled⟩ := waits.exists_cons
    have ends : Ends third := by simpa using eased.ends ends_nil
    have skipped := (Template.skipBlanks_append whites (amountSpelled.solid third)).1
    rw [List.cons_append, List.append_assoc]
    simp only [delayAndEasing?, white, if_true, skipped, quantity?_of_spells amountSpelled ends,
      read]
    rfl

end TimingGrammar

namespace TimingSpelling

open TimingGrammar

/-- The parts of an expression as the reader gives them. -/
def parts (spelling : TimingSpelling) : TimingParts :=
  ⟨spelling.duration.quantity, spelling.delay.map Amount.quantity, spelling.easing⟩

end TimingSpelling

namespace TimingGrammar

/-- An expression of the grammar is read as the parts that it is spelled from. -/
theorem read?_of_spells {text : List Char} {spelling : TimingSpelling}
    (spells : Spells text spelling) : TimingParts.read? text = some spelling.parts := by
  cases spells with
  | @parts first second third duration delay easing amount waits eased =>
    have ends : Ends (second ++ third) := waits.ends (by simpa using eased.ends ends_nil)
    simp only [TimingParts.read?, quantity?_of_spells amount ends,
      delayAndEasing?_of_spells waits eased, Option.bind_eq_bind, Option.bind_some]
    rfl

/-! ## What is read is an expression of the grammar -/

open TimingParts

theorem exists_splitMinus (text : List Char) :
    ∃ (negative : Bool) (body : List Char),
      splitMinus text = (if negative then ['-'] else [], body) ∧
        text = (if negative then ['-'] else []) ++ body := by
  unfold splitMinus
  split
  · next body => exact ⟨true, body, rfl, rfl⟩
  · exact ⟨false, text, rfl, rfl⟩

theorem exists_spells_of_splitUnit {text rest : List Char} {inSeconds : Bool}
    (ascii : ∀ c ∈ text, c.toNat < 128) (found : splitUnit text = (inSeconds, rest)) :
    ∃ unit, text = unit ++ rest ∧ SpellsUnit unit inSeconds := by
  cases text with
  | nil =>
    cases found
    exact ⟨[], rfl, .absent⟩
  | cons c tail =>
    have code := ascii c List.mem_cons_self
    rw [splitUnit.eq_def] at found
    simp only at found
    by_cases letter : isLetterS c = true
    · rw [if_pos letter, Prod.mk.injEq] at found
      obtain ⟨rfl, rfl⟩ := found
      have second : (c.toNat != 0x17F) = true := bne_iff_ne.2 (by omega)
      rw [second]
      exact ⟨[c], rfl, .seconds (by rw [List.map_singleton, (isLetterS_iff code).1 letter])⟩
    · rw [if_neg letter] at found
      cases tail with
      | nil =>
        cases found
        exact ⟨[], rfl, .absent⟩
      | cons next after =>
        by_cases unit : ((c == 'm' || c == 'M') && isLetterS next) = true
        · simp only [unit, if_true, Prod.mk.injEq] at found
          obtain ⟨rfl, rfl⟩ := found
          obtain ⟨first, later⟩ := Bool.and_eq_true_iff.1 unit
          have lowerM : c.toLower = 'm' := by
            rw [Bool.or_eq_true, beq_iff_eq, beq_iff_eq] at first
            rcases first with rfl | rfl <;> decide
          have lowerS : next.toLower = 's' :=
            (isLetterS_iff (ascii next (List.mem_cons_of_mem _ List.mem_cons_self))).1 later
          exact ⟨[c, next], rfl, .milliseconds (by simp [lowerM, lowerS])⟩
        · simp only [unit, Bool.false_eq_true, if_false, Prod.mk.injEq] at found
          obtain ⟨rfl, rfl⟩ := found
          exact ⟨[], rfl, .absent⟩

/-- An amount whose digits have a value is one of the grammar. -/
theorem exists_spells_of_quantity? {text rest : List Char} {quantity : Quantity}
    {numeral : Numeral} (ascii : ∀ c ∈ text, c.toNat < 128)
    (found : quantity? text = some (quantity, rest))
    (value : Numeral.read? quantity.digits = some numeral) :
    ∃ first amount, text = first ++ rest ∧ SpellsAmount first amount ∧
      amount.quantity = quantity := by
  obtain ⟨negative, body, split, rfl⟩ := exists_splitMinus text
  have parted : body.takeWhile isAmountChar ++ body.dropWhile isAmountChar = body :=
    List.takeWhile_append_dropWhile
  simp only [quantity?, split] at found
  split at found
  · exact absurd found (by simp)
  · cases found
    obtain ⟨number, same⟩ := DecimalNumber.exists_of_read? negative
      (List.all_eq_true.1 List.all_takeWhile) value
    obtain ⟨unit, unitSplit, unitSpelled⟩ := exists_spells_of_splitUnit
      (fun c member => ascii c
        (List.mem_append_right _ (parted ▸ List.mem_append_right _ member)))
      (Prod.eta (splitUnit (body.dropWhile isAmountChar))).symm
    refine ⟨number.text ++ unit, ⟨number, _⟩, ?_, .amount unitSpelled, ?_⟩
    · rw [same, List.append_assoc, List.append_assoc, ← unitSplit, parted]
    · rw [Amount.quantity, same]

theorem wordChar_of_isEasingChar {c : Char} (ascii : c.toNat < 128)
    (letter : isEasingChar c = true) : c = '-' ∨ c.isAlpha = true := by
  have long : (c.toNat == 0x17F) = false := beq_eq_false_iff_ne.2 (by omega)
  have kelvin : (c.toNat == 0x212A) = false := beq_eq_false_iff_ne.2 (by omega)
  simpa [isEasingChar, long, kelvin] using letter

/-- What is recognised as an easing is one of the grammar. -/
theorem spells_of_isEasing {text : List Char} (ascii : ∀ c ∈ text, c.toNat < 128)
    (recognised : TimingParts.isEasing text = true) : SpellsEasing text text := by
  have parted : text.takeWhile isEasingChar ++ text.dropWhile isEasingChar = text :=
    List.takeWhile_append_dropWhile
  obtain ⟨filled, ending⟩ := Bool.and_eq_true_iff.1 recognised
  have letters : IsWord (text.takeWhile isEasingChar) := by
    refine ⟨by simpa using filled, fun c member => ?_⟩
    exact wordChar_of_isEasingChar (ascii c (List.takeWhile_subset _ member))
      (List.all_eq_true.1 List.all_takeWhile c member)
  cases behind : text.dropWhile isEasingChar with
  | nil =>
    rw [behind, List.append_nil] at parted
    rw [parted] at letters
    exact .keyword letters
  | cons c rest =>
    rw [behind] at parted ending
    simp only [closesArguments, Bool.and_eq_true, beq_iff_eq] at ending
    obtain ⟨rfl, ⟨closed, some⟩, line⟩ := ending
    have shape : rest.dropLast ++ [')'] = rest := by
      obtain ⟨before, rfl⟩ := List.getLast?_eq_some_iff.1 closed
      rw [List.dropLast_concat]
    rw [← parted, ← shape]
    exact .function letters (by simpa using some) (by simpa using line)

/-- The blanks at the start of a text, and what comes behind them. -/
theorem behindBlanks_cons {α : Type} {spells : List Char → α → Prop} {c : Char}
    {rest text behind : List Char} {part : α} (blank : isBlank c = true)
    (split : skipBlanks rest = text ++ behind) (spelled : spells text part) :
    ∃ first, c :: rest = first ++ behind ∧ BehindBlanks spells first (some part) := by
  have parted : rest.takeWhile isBlank ++ skipBlanks rest = rest :=
    List.takeWhile_append_dropWhile
  refine ⟨c :: rest.takeWhile isBlank ++ text, ?_, .behind (List.cons_ne_nil _ _) ?_ spelled⟩
  · rw [List.append_assoc, ← split, List.cons_append, parted]
  · exact List.forall_mem_cons.2 ⟨blank, List.all_eq_true.1 List.all_takeWhile⟩

theorem spells_of_easing? {text : List Char} {easing : Option (List Char)}
    (ascii : ∀ c ∈ text, c.toNat < 128) (found : easing? text = some easing) :
    BehindBlanks SpellsEasing text easing := by
  cases text with
  | nil =>
    cases found
    exact .absent
  | cons c rest =>
    simp only [easing?] at found
    split at found
    · next recognised =>
      cases found
      obtain ⟨blank, isEasing⟩ := Bool.and_eq_true_iff.1 recognised
      have spelled := spells_of_isEasing
        (fun d member => ascii d (List.mem_cons_of_mem _ ((List.dropWhile_subset _) member)))
        isEasing
      obtain ⟨first, same, behind⟩ := behindBlanks_cons blank
        (List.append_nil (skipBlanks rest)).symm spelled
      rw [same, List.append_nil]
      exact behind
    · exact absurd found (by simp)

/-- What follows the duration is a delay and an easing of the grammar, if the digits of the delay
have a value. -/
theorem exists_spells_of_delayAndEasing? {text : List Char} {delay : Option Quantity}
    {easing : Option (List Char)} (ascii : ∀ c ∈ text, c.toNat < 128)
    (found : delayAndEasing? text = some (delay, easing))
    (value : ∀ quantity ∈ delay, ∃ numeral, Numeral.read? quantity.digits = some numeral) :
    ∃ second third amount, text = second ++ third ∧ BehindBlanks SpellsAmount second amount ∧
      amount.map Amount.quantity = delay ∧ BehindBlanks SpellsEasing third easing := by
  cases text with
  | nil =>
    cases found
    exact ⟨[], [], none, rfl, .absent, rfl, .absent⟩
  | cons c rest =>
    simp only [delayAndEasing?] at found
    split at found
    · next blank =>
      have asciiRest : ∀ d ∈ skipBlanks rest, d.toNat < 128 :=
        fun d member => ascii d (List.mem_cons_of_mem _ ((List.dropWhile_subset _) member))
      split at found
      · next quantity after reading =>
        obtain ⟨word, easingRead, same⟩ := Option.map_eq_some_iff.1 found
        cases same
        obtain ⟨numeral, read⟩ := value quantity rfl
        obtain ⟨first, amount, split, spelled, rfl⟩ :=
          exists_spells_of_quantity? asciiRest reading read
        have eased := spells_of_easing?
          (fun d member => asciiRest d (split ▸ List.mem_append_right _ member)) easingRead
        obtain ⟨second, same, behind⟩ := behindBlanks_cons blank split spelled
        exact ⟨second, after, some amount, same, behind, rfl, eased⟩
      · obtain ⟨word, easingRead, same⟩ := Option.map_eq_some_iff.1 found
        cases same
        exact ⟨[], c :: rest, none, rfl, .absent, rfl, spells_of_easing? ascii easingRead⟩
    · exact absurd found (by simp)

variable {ν : Type} [Scalar ν]

/-- Digits that have a value are read as a numeral. -/
theorem exists_read?_of_millis? {quantity : Quantity} {millis : ν}
    (value : quantity.millis? = some millis) :
    ∃ numeral, Numeral.read? quantity.digits = some numeral := by
  obtain ⟨numeral, read, -⟩ := Option.bind_eq_some_iff.1 value
  exact ⟨numeral, read⟩

/-- A text whose parts have values is an expression of the grammar, with these parts. -/
theorem exists_spells_of_timings? {text : List Char} {parts : TimingParts} {timings : Timings ν}
    (ascii : ∀ c ∈ text, c.toNat < 128) (read : TimingParts.read? text = some parts)
    (values : parts.timings? = some timings) :
    ∃ spelling, Spells text spelling ∧ spelling.parts = parts := by
  obtain ⟨⟨duration, rest⟩, amountRead, others⟩ := Option.bind_eq_some_iff.1 read
  obtain ⟨⟨delay, easing⟩, restRead, same⟩ := Option.bind_eq_some_iff.1 others
  cases same
  obtain ⟨durationValue, delayValue, -⟩ := timings?_eq_some_iff.1 values
  obtain ⟨numeral, durationNumeral⟩ := exists_read?_of_millis? durationValue
  have delayNumeral : ∀ quantity ∈ delay,
      ∃ numeral, Numeral.read? quantity.digits = some numeral := by
    rintro quantity rfl
    exact exists_read?_of_millis? delayValue
  obtain ⟨first, amount, rfl, spelled, rfl⟩ :=
    exists_spells_of_quantity? ascii amountRead durationNumeral
  obtain ⟨second, third, wait, rfl, waits, rfl, eased⟩ := exists_spells_of_delayAndEasing?
    (fun c member => ascii c (List.mem_append_right _ member)) restRead delayNumeral
  exact ⟨⟨amount, wait, easing⟩, .parts spelled waits eased, rfl⟩

/-! ## Values -/

/-- An amount of the grammar has the milliseconds that the reader computes. -/
theorem millis?_quantity_iff {amount : Amount} {millis : ν} :
    amount.quantity.millis? = some millis ↔ amount.Takes millis := by
  rw [Quantity.millis?, Amount.quantity, amount.number.read?_text, Amount.Takes]
  simp only [Option.bind_eq_bind, Option.bind_some, Option.bind_eq_some_iff]
  constructor
  · rintro ⟨value, has, taken⟩
    split at taken
    · next finite => exact ⟨value, has, finite, (Option.some.inj taken).symm⟩
    · exact absurd taken (by simp)
  · rintro ⟨value, has, finite, rfl⟩
    exact ⟨value, has, if_pos finite⟩

end TimingGrammar

namespace TimingSpelling

open TimingGrammar

variable {ν : Type} [Scalar ν]

/-- The milliseconds of an expression: of the duration, and of the delay if there is one. -/
structure Takes (spelling : TimingSpelling) (duration delay : ν) : Prop where
  duration : spelling.duration.Takes duration
  delay : DelayTakes spelling.delay delay

/-- The values of an expression are the ones that the reader computes. -/
theorem timings?_parts_iff {spelling : TimingSpelling} {timings : Timings ν} :
    spelling.parts.timings? = some timings ↔
      spelling.Takes timings.duration timings.delay ∧
        timings.easing = spelling.easing.map String.ofList := by
  have waits : ((spelling.delay.map Amount.quantity).map Quantity.millis?).getD (some 0) =
      some timings.delay ↔ DelayTakes spelling.delay timings.delay := by
    cases spelling.delay with
    | none => exact Option.some_inj.trans eq_comm
    | some quantity => exact millis?_quantity_iff
  rw [TimingParts.timings?_eq_some_iff, parts, millis?_quantity_iff, waits]
  constructor
  · rintro ⟨duration, delay, easing⟩
    exact ⟨⟨duration, delay⟩, easing⟩
  · rintro ⟨⟨duration, delay⟩, easing⟩
    exact ⟨duration, delay, easing⟩

end TimingSpelling

/-! ## Resolving -/

namespace Timing

open TimingGrammar

variable {ν : Type} [Scalar ν]

/-- Trimming only takes characters away. -/
theorem mem_of_mem_trimBlanks {text : List Char} {c : Char} (member : c ∈ trimBlanks text) :
    c ∈ text := by
  have behind := List.dropWhile_subset _ (List.mem_reverse.1 member)
  exact List.dropWhile_subset _ (List.mem_reverse.1 behind)

/-- **Resolving follows the grammar.** A text of ASCII characters is accepted exactly when, between
the blanks around it, it is an expression of the grammar whose amounts have finite values. Then it
resolves to these amounts and to the easing as it is written, except that negative amounts are
replaced by zero and reported, the duration first. Any other text is reported once and takes no
time. -/
theorem resolveText_follows_grammar (source : String)
    (ascii : ∀ c ∈ source.toList, c.toNat < 128) :
    ((∀ text, Problem.invalidTiming text ∉ (resolveText source : Timings ν × List (Problem ν)).2) ↔
      ∃ (spelling : TimingSpelling) (duration delay : ν),
        Spells (trimBlanks source.toList) spelling ∧ spelling.Takes duration delay) ∧
    (∀ (spelling : TimingSpelling) (duration delay : ν),
      Spells (trimBlanks source.toList) spelling → spelling.Takes duration delay →
        resolveText source =
          (⟨if duration < 0 then 0 else duration, if delay < 0 then 0 else delay,
              spelling.easing.map String.ofList⟩,
            (if duration < 0 then [.negativeDuration] else []) ++
              (if delay < 0 then [.negativeDelay] else []))) ∧
    ((¬∃ (spelling : TimingSpelling) (duration delay : ν),
        Spells (trimBlanks source.toList) spelling ∧ spelling.Takes duration delay) →
      (resolveText source : Timings ν × List (Problem ν)) =
        (⟨0, 0, none⟩, [.invalidTiming source])) := by
  have accepted : ∀ (spelling : TimingSpelling) (duration delay : ν),
      Spells (trimBlanks source.toList) spelling → spelling.Takes duration delay →
        resolveText source =
          (⟨duration, delay, spelling.easing.map String.ofList⟩ : Timings ν).checked := by
    intro spelling duration delay spells takes
    have values : spelling.parts.timings? =
        some ⟨duration, delay, spelling.easing.map String.ofList⟩ :=
      TimingSpelling.timings?_parts_iff.2 ⟨takes, rfl⟩
    rw [resolveText, read?_of_spells spells, Option.bind_some, values]
  have rejected : (¬∃ (spelling : TimingSpelling) (duration delay : ν),
      Spells (trimBlanks source.toList) spelling ∧ spelling.Takes duration delay) →
        resolveText source = ((Timings.none : Timings ν), [Problem.invalidTiming source]) := by
    intro none
    have unread : (TimingParts.read? (trimBlanks source.toList)).bind
        (TimingParts.timings? (ν := ν)) = Option.none := by
      cases bound : (TimingParts.read? (trimBlanks source.toList)).bind
          (TimingParts.timings? (ν := ν)) with
      | none => rfl
      | some timings =>
        obtain ⟨parts, read, values⟩ := Option.bind_eq_some_iff.1 bound
        obtain ⟨spelling, spells, rfl⟩ := exists_spells_of_timings?
          (fun c member => ascii c (mem_of_mem_trimBlanks member)) read values
        exact absurd ⟨spelling, _, _, spells, (TimingSpelling.timings?_parts_iff.1 values).1⟩ none
    rw [resolveText, unread]
  refine ⟨⟨fun silent => ?_, ?_⟩, accepted, rejected⟩
  · by_contra none
    exact silent source (by rw [rejected none]; exact List.mem_singleton_self _)
  · rintro ⟨spelling, duration, delay, spells, takes⟩ text
    rw [accepted spelling duration delay spells takes, Timings.checked]
    simp only
    split <;> split <;> simp

/-- The amount `-1.5S`. -/
def backwards : Amount :=
  ⟨⟨true, ['1'], some ['5'], by simp, by simp⟩, true⟩

/-- The amount `20.9ms`. -/
def pause : Amount :=
  ⟨⟨false, ['2', '0'], some ['9'], by simp, by simp⟩, false⟩

/-- A negative duration in seconds, a delay in milliseconds and an easing with arguments. -/
theorem resolveText_negative_seconds :
    Spells (trimBlanks " -1.5S 20.9ms\tsteps(2, end) ".toList)
        ⟨backwards, some pause, some "steps(2, end)".toList⟩ ∧
      backwards.Takes (Binary64.ofNat 1500).neg ∧ pause.Takes (Binary64.ofNat 20) ∧
      (resolveText " -1.5S 20.9ms\tsteps(2, end) " :
          Timings Binary64 × List (Problem Binary64)) =
        (⟨0, Binary64.ofNat 20, some "steps(2, end)"⟩, [.negativeDuration]) := by
  have ascii : ∀ c ∈ " -1.5S 20.9ms\tsteps(2, end) ".toList, c.toNat < 128 := by simp
  have first : SpellsAmount (backwards.number.text ++ ['S']) backwards :=
    .amount (.seconds (by decide +kernel))
  have second : SpellsAmount (pause.number.text ++ ['m', 's']) pause :=
    .amount (.milliseconds (by decide +kernel))
  have third : SpellsEasing ("steps".toList ++ '(' :: ("2, end".toList ++ [')']))
      ("steps".toList ++ '(' :: ("2, end".toList ++ [')'])) :=
    .function ⟨by simp, by simp⟩ (by simp) (by simp)
  have spells : Spells (backwards.number.text ++ ['S'] ++
      (([' '] ++ (pause.number.text ++ ['m', 's'])) ++
        (['\t'] ++ ("steps".toList ++ '(' :: ("2, end".toList ++ [')'])))))
      ⟨backwards, some pause, some ("steps".toList ++ '(' :: ("2, end".toList ++ [')']))⟩ :=
    .parts first (.behind (by simp) (by simp [isBlank]) second)
      (.behind (by simp) (by simp [isBlank]) third)
  have back : backwards.Takes (Binary64.ofNat 1500).neg :=
    ⟨Binary64.ofNumeral backwards.number.numeral, rfl, by decide +kernel, by decide +kernel⟩
  have part : pause.Takes (Binary64.ofNat 20) :=
    ⟨Binary64.ofNumeral pause.number.numeral, rfl, by decide +kernel, by decide +kernel⟩
  refine ⟨spells, back, part, ?_⟩
  rw [(resolveText_follows_grammar " -1.5S 20.9ms\tsteps(2, end) " ascii).2.1 _ _ _ spells
    ⟨back, part⟩]
  decide +kernel

end Timing

end Storyboard
