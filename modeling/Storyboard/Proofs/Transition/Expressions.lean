import Storyboard.Proofs.Text.Templates
import Storyboard.Proofs.Timing.Grammar
import Storyboard.Proofs.Trigger.BooleanStates

/-!
# Transition expressions mean what they say

An expression is a comma list of alternatives. An alternative is one of four aliases, or two sides
with an arrow between them, where a side is a state name or the name for any state. The grammar is
written down here without a word about reading (`TransitionGrammar.Spells`), and so is the meaning
of an alternative (`TransitionGrammar.Alternative.Admits`).

A name may end in a hyphen, and the arrow behind it may begin with one. Still there is one way only
to take an alternative apart: the arrow ends with the one `>` of the text, so that the hyphen in
front of it belongs to the arrow, and every hyphen before that to the name
(`Arrow.nameThenArrow?_name`). Reading finds this way, and what it makes of an alternative
admits what the alternative admits (`Alternative.admits_matchers_iff`).
-/

set_option autoImplicit false

namespace Storyboard

/-! ## The grammar -/

namespace TransitionGrammar

/-- A name of a state: letters and digits of ASCII, underscores and hyphens, in any order. -/
structure StateName where
  letters : List Char
  filled : letters ≠ []
  plain : ∀ c ∈ letters, c.isAlphanum = true ∨ c = '_' ∨ c = '-'

/-- One side of an alternative: any state, or the states with a name. -/
inductive Side where
  | any
  | named (name : StateName)

/-- How a side is written. -/
def Side.text : Side → List Char
  | any => ['*']
  | named name => name.letters

/-- An arrow: whether it points both ways, and whether its line is double. -/
structure Arrow where
  bothWays : Bool
  double : Bool

/-- How an arrow is written. -/
def Arrow.text (arrow : Arrow) : List Char :=
  (if arrow.bothWays then ['<'] else []) ++ [if arrow.double then '=' else '-', '>']

/-- An alternative of a transition expression. -/
inductive Alternative where
  | enter
  | leave
  | increment
  | decrement
  | change (source : Side) (arrow : Arrow) (target : Side)

/-- How an alternative is written: an alias, or two sides and the arrow between them, with or
without blanks around the arrow. -/
inductive SpellsAlternative : List Char → Alternative → Prop where
  | enter : SpellsAlternative ":enter".toList .enter
  | leave : SpellsAlternative ":leave".toList .leave
  | increment : SpellsAlternative ":increment".toList .increment
  | decrement : SpellsAlternative ":decrement".toList .decrement
  | change {source target : Side} {arrow : Arrow} {before behind : List Char}
      (white : ∀ c ∈ before, isBlank c = true) (whiteBehind : ∀ c ∈ behind, isBlank c = true) :
      SpellsAlternative (source.text ++ (before ++ (arrow.text ++ (behind ++ target.text))))
        (.change source arrow target)

/-- An alternative with or without blanks around it. -/
inductive SpellsPart : List Char → Alternative → Prop where
  | between {front text behind : List Char} {alternative : Alternative}
      (white : ∀ c ∈ front, isBlank c = true) (spelled : SpellsAlternative text alternative)
      (whiteBehind : ∀ c ∈ behind, isBlank c = true) :
      SpellsPart (front ++ (text ++ behind)) alternative

/-- **The grammar**: at least one alternative, and commas between them. -/
inductive Spells : List Char → List Alternative → Prop where
  | last {part : List Char} {alternative : Alternative} (spelled : SpellsPart part alternative) :
      Spells part [alternative]
  | more {part rest : List Char} {alternative : Alternative} {alternatives : List Alternative}
      (spelled : SpellsPart part alternative) (others : Spells rest alternatives) :
      Spells (part ++ ',' :: rest) (alternative :: alternatives)

/-! ## The meaning -/

/-- A side fits a state: it is the side for any state, or it has a name of the state. -/
def Side.Fits : Side → String → Prop
  | any, _ => True
  | named name, state => Matcher.SameState (String.ofList name.letters) state

/-- A change of state that an alternative admits. An arrow that points both ways admits a change
when it is admitted one way or the other. -/
def Alternative.Admits (ν : Type) [Scalar ν] (source target : String) : Alternative → Prop
  | enter => source = "void"
  | leave => target = "void"
  | increment => ∃ before after : ν, Matcher.stateNumber? ν source = some before ∧
      Matcher.stateNumber? ν target = some after ∧ before < after
  | decrement => ∃ before after : ν, Matcher.stateNumber? ν source = some before ∧
      Matcher.stateNumber? ν target = some after ∧ after < before
  | change left arrow right => left.Fits source ∧ right.Fits target ∨
      arrow.bothWays = true ∧ left.Fits target ∧ right.Fits source

/-! ## Characters -/

/-- The code points of the blanks. -/
def blankCodes : List Nat :=
  [0x09, 0x0A, 0x0B, 0x0C, 0x0D, 0x20, 0x85, 0xA0, 0x1680, 0x2000, 0x2001, 0x2002, 0x2003, 0x2004,
    0x2005, 0x2006, 0x2007, 0x2008, 0x2009, 0x200A, 0x2028, 0x2029, 0x202F, 0x205F, 0x3000]

theorem mem_blankCodes {c : Char} (blank : isBlank c = true) : c.toNat ∈ blankCodes := by
  simp only [isBlank, Bool.or_eq_true, Bool.and_eq_true, decide_eq_true_eq, beq_iff_eq] at blank
  simp only [blankCodes, List.mem_cons, List.not_mem_nil, or_false]
  omega

/-- No blank is a character of a name. -/
theorem isNameChar_of_isBlank {c : Char} (blank : isBlank c = true) :
    Matcher.isNameChar c = false := by
  have outside : ∀ code ∈ blankCodes,
      (wordRanges.any fun range => range.1 ≤ code && code ≤ range.2) = false := by decide +kernel
  have hyphen : c ≠ '-' := by
    rintro rfl
    exact absurd blank (by decide)
  rw [Matcher.isNameChar, isWordChar, outside _ (mem_blankCodes blank), Bool.or_false]
  exact beq_eq_false_iff_ne.2 hyphen

theorem isNameChar_of_plain {c : Char} (plain : c.isAlphanum = true ∨ c = '_' ∨ c = '-') :
    Matcher.isNameChar c = true := by
  rcases plain with alphanumeric | rfl | rfl
  · simp [Matcher.isNameChar, isWordChar_of_isAlphanum alphanumeric]
  · decide
  · decide

/-- The characters of a name are no blanks, and none of them has a meaning of its own. -/
theorem ne_of_plain {c other : Char} (plain : c.isAlphanum = true ∨ c = '_' ∨ c = '-')
    (special : Matcher.isNameChar other = false) : c ≠ other := by
  rintro rfl
  exact absurd (isNameChar_of_plain plain) (by rw [special]; exact Bool.false_ne_true)

/-! ## Sides and arrows are read -/

/-- The name that a side has in a matcher. -/
def Side.name (side : Side) : String :=
  String.ofList side.text

theorem Side.text_ne_nil (side : Side) : side.text ≠ [] := by
  cases side with
  | any => exact List.cons_ne_nil _ _
  | named name => exact name.filled

/-- Every character of a side is a star or belongs to a name. -/
theorem Side.star_or_plain (side : Side) {c : Char} (member : c ∈ side.text) :
    c = '*' ∨ c.isAlphanum = true ∨ c = '_' ∨ c = '-' := by
  cases side with
  | any => exact .inl (List.mem_singleton.1 member)
  | named name => exact .inr (name.plain c member)

theorem Side.ne_of_mem (side : Side) {c other : Char} (member : c ∈ side.text)
    (special : Matcher.isNameChar other = false) (star : other ≠ '*') : c ≠ other := by
  rcases side.star_or_plain member with rfl | plain
  · exact star.symm
  · exact ne_of_plain plain special

theorem Side.isBlank_of_mem (side : Side) {c : Char} (member : c ∈ side.text) :
    isBlank c = false := by
  apply Bool.eq_false_iff.2
  intro blank
  refine side.ne_of_mem member (isNameChar_of_isBlank blank) ?_ rfl
  rintro rfl
  exact absurd blank (by decide)

/-- What may stand on a side of an arrow: the name for any state, or a name of word characters and
hyphens, be they of ASCII or not. -/
def IsSide (text : List Char) : Prop :=
  text = ['*'] ∨ text ≠ [] ∧ ∀ c ∈ text, Matcher.isNameChar c = true

theorem isSide_iff (text : List Char) : IsSide text ↔ Matcher.isRightSide text = true := by
  simp [IsSide, Matcher.isRightSide]

theorem Side.isSide_text (side : Side) : IsSide side.text := by
  cases side with
  | any => exact .inl rfl
  | named name => exact .inr ⟨name.filled, fun c member => isNameChar_of_plain (name.plain c member)⟩

/-- Nothing that may stand on a side begins with a blank or a colon. -/
theorem IsSide.head_ne {text : List Char} (side : IsSide text) :
    ∀ c ∈ text.head?, isBlank c = false ∧ c ≠ ':' := by
  intro c first
  rcases side with rfl | ⟨_, letters⟩
  · cases first
    exact ⟨by decide, by decide⟩
  · have letter := letters c (List.mem_of_mem_head? first)
    refine ⟨Bool.eq_false_iff.2 fun blank => ?_, ?_⟩
    · exact absurd letter (Bool.eq_false_iff.1 (isNameChar_of_isBlank blank))
    · rintro rfl
      exact absurd letter (by decide +kernel)

/-- A matcher that has the name of a side covers the states that the side fits. -/
theorem Side.covers_name_iff (side : Side) (state : String) :
    Matcher.covers side.name state = true ↔ side.Fits state := by
  rw [Matcher.covers_iff]
  cases side with
  | any => exact iff_of_true (.inl rfl) trivial
  | named name =>
    refine or_iff_right fun same => ?_
    have star : name.letters = ['*'] := String.ofList_inj.1 same
    have plain := name.plain '*' (star ▸ List.mem_cons_self)
    exact absurd plain (by decide)

section

variable {before : List Char} (white : ∀ c ∈ before, isBlank c = true) (arrow : Arrow)
  (rest : List Char)

theorem Arrow.arrow?_text : Matcher.arrow? (arrow.text ++ rest) = some (arrow.bothWays, rest) := by
  obtain ⟨bothWays, double⟩ := arrow
  cases bothWays <;> cases double <;> rfl

include white

theorem Arrow.arrow?_skipBlanks :
    Matcher.arrow? (skipBlanks (before ++ (arrow.text ++ rest))) = some (arrow.bothWays, rest) := by
  have solid : ∀ c tail, arrow.text ++ rest = c :: tail → isBlank c = false := by
    obtain ⟨bothWays, double⟩ := arrow
    cases bothWays <;> cases double <;> (intro c tail begins; cases begins; decide)
  rw [(Template.skipBlanks_append white solid).1, arrow.arrow?_text]

/-- No name begins with what stands behind a name: a blank, or an arrow. The hyphen of an arrow is
none, for no arrow stands behind it. -/
theorem Arrow.nameThenArrow?_eq_none :
    Matcher.nameThenArrow? (before ++ (arrow.text ++ rest)) = none := by
  have stops : ∀ c tail, Matcher.isNameChar c = false →
      Matcher.nameThenArrow? (c :: tail) = none := by
    intro c tail special
    simp [Matcher.nameThenArrow?, special]
  cases before with
  | cons blank others =>
    exact stops blank _ (isNameChar_of_isBlank (white blank List.mem_cons_self))
  | nil =>
    obtain ⟨bothWays, double⟩ := arrow
    cases bothWays with
    | true => exact stops '<' _ (by decide +kernel)
    | false =>
      cases double with
      | true => exact stops '=' _ (by decide +kernel)
      | false =>
        have tip : Matcher.nameThenArrow? ('>' :: rest) = none := stops '>' _ (by decide +kernel)
        have hyphen : Matcher.isNameChar '-' = true := by decide +kernel
        change Matcher.nameThenArrow? ('-' :: '>' :: rest) = none
        rw [Matcher.nameThenArrow?, if_pos hyphen, tip]
        rfl

/-- A name is read to its last character, whatever hyphens it has. -/
theorem Arrow.nameThenArrow?_name {letters : List Char} (filled : letters ≠ [])
    (plain : ∀ c ∈ letters, Matcher.isNameChar c = true) :
    Matcher.nameThenArrow? (letters ++ (before ++ (arrow.text ++ rest))) =
      some (letters, arrow.bothWays, rest) := by
  induction letters with
  | nil => exact absurd rfl filled
  | cons c others ih =>
    obtain ⟨first, later⟩ := List.forall_mem_cons.1 plain
    rw [List.cons_append, Matcher.nameThenArrow?, if_pos first]
    cases others with
    | nil =>
      rw [List.nil_append, arrow.nameThenArrow?_eq_none white rest,
        arrow.arrow?_skipBlanks white rest]
      rfl
    | cons next more => rw [ih (List.cons_ne_nil _ _) later]

/-- Whatever may stand on a side is read on the left of an arrow. -/
theorem IsSide.leftSide?_append {left : List Char} (side : IsSide left) :
    Matcher.leftSide? (left ++ (before ++ (arrow.text ++ rest))) =
      some (left, arrow.bothWays, rest) := by
  rcases side with rfl | ⟨filled, letters⟩
  · have read := arrow.arrow?_skipBlanks white rest
    simp only [List.cons_append, List.nil_append, Matcher.leftSide?, read, Option.map_some]
  · have read := arrow.nameThenArrow?_name white rest filled letters
    unfold Matcher.leftSide?
    split
    · next begins =>
      obtain ⟨c, others, shape⟩ := List.exists_cons_of_ne_nil filled
      rw [shape, List.cons_append, List.cons.injEq] at begins
      have letter := letters c (shape ▸ List.mem_cons_self)
      exact absurd (begins.1 ▸ letter) (by decide +kernel)
    · exact read

end

/-! ## Alternatives are read -/

/-- What reading makes of an alternative. A change both ways has two matchers, unless one is enough
because every change is admitted. -/
def Alternative.matchers : Alternative → List Matcher
  | enter => [.states "void" "*"]
  | leave => [.states "*" "void"]
  | increment => [.increment]
  | decrement => [.decrement]
  | change source arrow target =>
    if arrow.bothWays && !(source.name == anyState && target.name == anyState) then
      [.states source.name target.name, .states target.name source.name]
    else [.states source.name target.name]

/-- The matchers of a change between two names, as those of an alternative. -/
def arrowMatchers (source : String) (bothWays : Bool) (target : String) : List Matcher :=
  if bothWays && !(source == anyState && target == anyState) then
    [.states source target, .states target source]
  else [.states source target]

/-- Behind a left side and an arrow, the rest of the text decides. -/
theorem ofArrow?_of_leftSide? {text left rest : List Char} {bothWays : Bool}
    (begins : Matcher.leftSide? text = some (left, bothWays, rest)) :
    Matcher.ofArrow? text =
      if Matcher.isRightSide (skipBlanks rest) then
        some (arrowMatchers (String.ofList left) bothWays (String.ofList (skipBlanks rest)))
      else none := by
  rw [Matcher.ofArrow?, begins]
  simp only [Option.bind_eq_bind, Option.bind_some, arrowMatchers]
  split
  · split <;> rfl
  · rfl

/-- An arrow between whatever may stand on its sides is read. -/
theorem ofArrow?_of_isSide {left right before behind : List Char} (leftSide : IsSide left)
    (rightSide : IsSide right) (arrow : Arrow) (white : ∀ c ∈ before, isBlank c = true)
    (whiteBehind : ∀ c ∈ behind, isBlank c = true) :
    Matcher.ofArrow? (left ++ (before ++ (arrow.text ++ (behind ++ right)))) =
      some (arrowMatchers (String.ofList left) arrow.bothWays (String.ofList right)) := by
  have read : skipBlanks (behind ++ right) = right :=
    skipBlanks_of_head whiteBehind fun c first => (rightSide.head_ne c first).1
  have begins := leftSide.leftSide?_append white arrow (behind ++ right)
  rw [ofArrow?_of_leftSide? begins, read, if_pos ((isSide_iff right).1 rightSide)]

variable {ν : Type}

/-- What the alias of entering stands for. -/
theorem ofArrow_enter :
    (Matcher.ofArrow "void => *" : List Matcher × List (Problem ν)) =
      (Alternative.enter.matchers, []) := by
  have read : Matcher.ofArrow? "void => *".toList = some [.states "void" "*"] := by decide +kernel
  rw [Matcher.ofArrow, read]
  rfl

/-- What the alias of leaving stands for. -/
theorem ofArrow_leave :
    (Matcher.ofArrow "* => void" : List Matcher × List (Problem ν)) =
      (Alternative.leave.matchers, []) := by
  have read : Matcher.ofArrow? "* => void".toList = some [.states "*" "void"] := by decide +kernel
  rw [Matcher.ofArrow, read]
  rfl

/-- An alternative is read as its matchers, without a problem. -/
theorem ofPart_of_spells {text : List Char} {alternative : Alternative}
    (spelled : SpellsAlternative text alternative) :
    (Matcher.ofPart (String.ofList text) : List Matcher × List (Problem ν)) =
      (alternative.matchers, []) := by
  cases spelled with
  | enter => simp [Matcher.ofPart, ofArrow_enter]
  | leave => simp [Matcher.ofPart, ofArrow_leave]
  | increment => simp [Matcher.ofPart, Alternative.matchers]
  | decrement => simp [Matcher.ofPart, Alternative.matchers]
  | @change source target arrow before behind white whiteBehind =>
    rw [Matcher.ofPart, String.toList_ofList]
    split
    · next begins =>
      obtain ⟨c, others, shape⟩ := List.exists_cons_of_ne_nil source.text_ne_nil
      rw [shape, List.cons_append, List.cons.injEq] at begins
      have member : c ∈ source.text := shape ▸ List.mem_cons_self
      exact absurd begins.1 (source.ne_of_mem member (by decide +kernel) (by decide))
    · rw [Matcher.ofArrow, String.toList_ofList,
        ofArrow?_of_isSide source.isSide_text target.isSide_text arrow white whiteBehind]
      rfl

/-! ## The matchers of an alternative -/

section

variable [Scalar ν]

/-- The state `void` has one name only. -/
theorem covers_void_iff (state : String) : Matcher.covers "void" state = true ↔ state = "void" := by
  rw [Matcher.covers_iff, Matcher.SameState, Matcher.sameBoolean_iff]
  simp [anyState, eq_comm]

/-- The matchers of a change both ways admit what one of the two ways admits, also where one matcher
is enough. -/
theorem admits_arrowMatchers_iff (source : String) (bothWays : Bool) (target left right : String) :
    (∃ matcher ∈ arrowMatchers source bothWays target, matcher.admits ν left right = true) ↔
      Matcher.covers source left = true ∧ Matcher.covers target right = true ∨
        bothWays = true ∧ Matcher.covers source right = true ∧
          Matcher.covers target left = true := by
  have every (state : String) : Matcher.covers anyState state = true :=
    (Matcher.covers_iff _ _).2 (.inl rfl)
  rw [arrowMatchers]
  split
  · next doubled =>
    simp only [List.mem_cons, List.not_mem_nil, or_false, exists_eq_or_imp, exists_eq_left,
      Matcher.admits, Bool.and_eq_true, (Bool.and_eq_true_iff.1 doubled).1, true_and]
    rw [and_comm (a := Matcher.covers target left = true)]
  · next single =>
    simp only [List.mem_singleton, exists_eq_left, Matcher.admits, Bool.and_eq_true]
    refine (or_iff_left_of_imp ?_).symm
    rintro ⟨rfl, -⟩
    have any : source = anyState ∧ target = anyState := by simpa using single
    exact ⟨any.1 ▸ every left, any.2 ▸ every right⟩

/-- What reading makes of an alternative admits the changes that the alternative admits. -/
theorem Alternative.admits_matchers_iff (alternative : Alternative) (left right : String) :
    (∃ matcher ∈ alternative.matchers, matcher.admits ν left right = true) ↔
      alternative.Admits ν left right := by
  have every (state : String) : Matcher.covers "*" state = true :=
    (Matcher.covers_iff _ _).2 (.inl rfl)
  cases alternative with
  | enter => simp [matchers, Matcher.admits, Admits, every, covers_void_iff]
  | leave => simp [matchers, Matcher.admits, Admits, every, covers_void_iff]
  | increment =>
    simp only [matchers, List.mem_singleton, exists_eq_left, Matcher.admits, Admits]
    cases Matcher.stateNumber? ν left <;> cases Matcher.stateNumber? ν right <;> simp
  | decrement =>
    simp only [matchers, List.mem_singleton, exists_eq_left, Matcher.admits, Admits]
    cases Matcher.stateNumber? ν left <;> cases Matcher.stateNumber? ν right <;> simp
  | change source arrow target =>
    refine (admits_arrowMatchers_iff source.name arrow.bothWays target.name left right).trans ?_
    simp only [Side.covers_name_iff, Admits]

end

/-! ## Expressions are read -/

section

variable {text : List Char} {alternative : Alternative}

theorem SpellsAlternative.ne_nil (spelled : SpellsAlternative text alternative) : text ≠ [] := by
  cases spelled with
  | enter | leave | increment | decrement => decide
  | @change source => simp [source.text_ne_nil]

/-- No comma stands in an alternative. -/
theorem SpellsAlternative.not_mem_comma (spelled : SpellsAlternative text alternative) :
    ',' ∉ text := by
  cases spelled with
  | enter | leave | increment | decrement => decide
  | @change source target arrow before behind white whiteBehind =>
    have side (side : Side) : ',' ∉ side.text :=
      fun member => side.ne_of_mem member (by decide +kernel) (by decide) rfl
    have inArrow : ',' ∉ arrow.text := by
      obtain ⟨bothWays, double⟩ := arrow
      cases bothWays <;> cases double <;> decide
    have blanks {blanks : List Char} (white : ∀ c ∈ blanks, isBlank c = true) : ',' ∉ blanks :=
      fun member => absurd (white _ member) (by decide)
    simp only [List.mem_append, not_or]
    exact ⟨side source, blanks white, inArrow, blanks whiteBehind, side target⟩

theorem SpellsAlternative.trimmed (spelled : SpellsAlternative text alternative) :
    Trimmed text := by
  cases spelled with
  | enter | leave | increment | decrement => exact ⟨by simp [isBlank], by simp [isBlank]⟩
  | @change source target arrow before behind =>
    have between := Trimmed.between (before ++ (arrow.text ++ behind)) source.text_ne_nil
      target.text_ne_nil (fun c => source.isBlank_of_mem) (fun c => target.isBlank_of_mem)
    simpa only [List.append_assoc] using between

/-- No comma stands in a part either. -/
theorem SpellsPart.not_mem_comma (spelled : SpellsPart text alternative) : ',' ∉ text := by
  obtain ⟨white, spelled, whiteBehind⟩ := spelled
  simp only [List.mem_append, not_or]
  refine ⟨fun member => ?_, spelled.not_mem_comma, fun member => ?_⟩
  · exact absurd (white _ member) (by decide)
  · exact absurd (whiteBehind _ member) (by decide)

/-- The blanks around an alternative are trimmed, and it is read. -/
theorem ofPart_trimBlanks {ν : Type} (spelled : SpellsPart text alternative) :
    (Matcher.ofPart (String.ofList (trimBlanks text)) : List Matcher × List (Problem ν)) =
      (alternative.matchers, []) := by
  obtain ⟨white, spelled, whiteBehind⟩ := spelled
  rw [spelled.trimmed.trimBlanks white whiteBehind spelled.ne_nil, ofPart_of_spells spelled]

end

/-- A text without a comma is one part. -/
theorem splitCommas_of_not_mem {part : List Char} (plain : ',' ∉ part) :
    splitCommas part = [part] := by
  induction part with
  | nil => rfl
  | cons c others ih =>
    obtain ⟨first, later⟩ := not_or.1 (mt List.mem_cons.2 plain)
    rw [splitCommas, if_neg (Ne.symm first), ih later]

/-- A text without a comma is the first part of a list, if a comma follows it. -/
theorem splitCommas_append {part : List Char} (plain : ',' ∉ part) (rest : List Char) :
    splitCommas (part ++ ',' :: rest) = part :: splitCommas rest := by
  induction part with
  | nil => rfl
  | cons c others ih =>
    obtain ⟨first, later⟩ := not_or.1 (mt List.mem_cons.2 plain)
    rw [List.cons_append, splitCommas, if_neg (Ne.symm first), ih later]

/-- The parts of an expression are read as its alternatives, in order and without a problem. -/
theorem map_ofPart_of_spells {ν : Type} {text : List Char} {alternatives : List Alternative}
    (spelled : Spells text alternatives) :
    ((splitCommas text).map trimBlanks).map
        (fun part => (Matcher.ofPart (String.ofList part) : List Matcher × List (Problem ν))) =
      alternatives.map fun alternative => (alternative.matchers, []) := by
  induction spelled with
  | last spelled =>
    rw [splitCommas_of_not_mem spelled.not_mem_comma]
    simp only [List.map_cons, List.map_nil, ofPart_trimBlanks spelled]
  | more spelled _ ih =>
    rw [splitCommas_append spelled.not_mem_comma]
    simp only [List.map_cons, ofPart_trimBlanks spelled, ih]

end TransitionGrammar

open TransitionGrammar in
/-- **Transition expressions mean what they say.** An expression of the grammar is read without a
problem, and a matcher of it admits a change of state exactly when one of its alternatives does. -/
theorem Matcher.ofExpression_of_spells (ν : Type) [Scalar ν] {text : List Char}
    {alternatives : List Alternative} (spelled : Spells text alternatives) :
    ∃ matchers : List Matcher,
      ofExpression (String.ofList text) = (matchers, ([] : List (Problem ν))) ∧
      ∀ source target : String, (∃ matcher ∈ matchers, matcher.admits ν source target = true) ↔
        ∃ alternative ∈ alternatives, alternative.Admits ν source target := by
  refine ⟨alternatives.flatMap Alternative.matchers, ?_, fun source target => ?_⟩
  · simp only [ofExpression, commaList, String.toList_ofList]
    rw [map_ofPart_of_spells spelled]
    simp [List.flatMap_map]
  · simp only [List.mem_flatMap, ← Alternative.admits_matchers_iff]
    constructor
    · rintro ⟨matcher, ⟨alternative, member, read⟩, admitted⟩
      exact ⟨alternative, member, matcher, read, admitted⟩
    · rintro ⟨alternative, member, matcher, read, admitted⟩
      exact ⟨matcher, ⟨alternative, member, read⟩, admitted⟩

namespace TransitionGrammar

/-- The state `a-`. -/
def behindHyphen : Side :=
  .named ⟨['a', '-'], by simp, by simp⟩

/-- The state `-b`. -/
def beforeHyphen : Side :=
  .named ⟨['-', 'b'], by simp, by simp⟩

/-- The state `true`. -/
def truth : Side :=
  .named ⟨"true".toList, by simp, by simp⟩

/-- A change between two names with hyphens, an alias, and a change both ways. -/
def hyphens : List Alternative :=
  [.change behindHyphen ⟨false, false⟩ beforeHyphen, .enter, .change truth ⟨true, false⟩ .any]

/-- Names with hyphens at the arrow, an alias, and an arrow that points both ways. -/
theorem ofExpression_hyphens :
    Spells "a-->-b ,:enter, true <-> *".toList hyphens ∧
      ∃ matchers, Matcher.ofExpression "a-->-b ,:enter, true <-> *" =
          (matchers, ([] : List (Problem Binary64))) ∧
        (∃ matcher ∈ matchers, matcher.admits Binary64 "a-" "-b" = true) ∧
        (∃ matcher ∈ matchers, matcher.admits Binary64 "elsewhere" "1" = true) ∧
        ¬∃ matcher ∈ matchers, matcher.admits Binary64 "-b" "a-" = true := by
  have line : ∀ c ∈ [' '], isBlank c = true := by simp [isBlank]
  have none : ∀ c ∈ ([] : List Char), isBlank c = true := List.forall_mem_nil _
  have first : SpellsPart ([] ++ ((behindHyphen.text ++ ([] ++ (Arrow.text ⟨false, false⟩ ++
      ([] ++ beforeHyphen.text)))) ++ [' '])) (.change behindHyphen ⟨false, false⟩ beforeHyphen) :=
    .between none (.change none none) line
  have second : SpellsPart ([] ++ (":enter".toList ++ [])) .enter := .between none .enter none
  have third : SpellsPart ([' '] ++ ((truth.text ++ ([' '] ++ (Arrow.text ⟨true, false⟩ ++
      ([' '] ++ Side.any.text)))) ++ [])) (.change truth ⟨true, false⟩ .any) :=
    .between line (.change line line) none
  have spelled : Spells "a-->-b ,:enter, true <-> *".toList hyphens :=
    .more first (.more second (.last third))
  obtain ⟨matchers, read, admits⟩ := Matcher.ofExpression_of_spells Binary64 spelled
  refine ⟨spelled, matchers, read, ?_, ?_, ?_⟩
  · exact (admits _ _).2 ⟨_, List.mem_cons_self, .inl ⟨.inl rfl, .inl rfl⟩⟩
  · have third : .change truth ⟨true, false⟩ .any ∈ hyphens :=
      List.mem_cons_of_mem _ (List.mem_cons_of_mem _ List.mem_cons_self)
    exact (admits _ _).2 ⟨_, third, .inr ⟨rfl, .inr (by decide), trivial⟩⟩
  · rw [admits]
    have apart : ¬Matcher.SameState "a-" "-b" := by decide
    have untrue : ¬Matcher.SameState "true" "-b" := by decide
    have untrueThere : ¬Matcher.SameState "true" "a-" := by decide
    simp [hyphens, Alternative.Admits, Side.Fits, behindHyphen, beforeHyphen, truth, apart,
      untrue, untrueThere]

end TransitionGrammar

end Storyboard
