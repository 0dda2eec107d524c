import Storyboard.Proofs.Transition.Expressions

/-!
# What an accepted expression admits

Every expression that is read without a problem says which changes of state it admits, and this can
be told from its text alone: the text is cut at its commas and the blanks around the parts are
dropped, and one of the parts is an alias that admits the change, or has two sides with an arrow
between them that cover the two states (`TransitionGrammar.ExpressionAdmits`). The sides may have
letters of any script, so there are more such expressions than the grammar of `Spells` has.

`Matcher.admits_ofExpression_iff` says that the matchers of the expression admit the same changes.
It leaves out the states with two names, which a side covers under the name that it does not have.
-/

set_option autoImplicit false

namespace Storyboard

namespace TransitionGrammar

/-! ## The meaning of a text -/

/-- A text has two sides and an arrow between them, with or without blanks around the arrow. -/
inductive WritesChange : List Char → List Char → Arrow → List Char → Prop where
  | between {left right before behind : List Char} {arrow : Arrow} (leftSide : IsSide left)
      (rightSide : IsSide right) (white : ∀ c ∈ before, isBlank c = true)
      (whiteBehind : ∀ c ∈ behind, isBlank c = true) :
      WritesChange (left ++ (before ++ (arrow.text ++ (behind ++ right)))) left arrow right

/-- What stands on a side covers a state: it is the name for any state, or the name of that one. -/
def Covers (side : List Char) (state : String) : Prop :=
  side = ['*'] ∨ String.ofList side = state

/-- A part of an expression admits a change of state. -/
inductive PartAdmits (ν : Type) [Scalar ν] (source target : String) (part : List Char) : Prop where
  | enter (spelled : part = ":enter".toList) (fromVoid : source = "void")
  | leave (spelled : part = ":leave".toList) (toVoid : target = "void")
  | increment {before after : ν} (spelled : part = ":increment".toList)
      (first : Matcher.stateNumber? ν source = some before)
      (second : Matcher.stateNumber? ν target = some after) (grows : before < after)
  | decrement {before after : ν} (spelled : part = ":decrement".toList)
      (first : Matcher.stateNumber? ν source = some before)
      (second : Matcher.stateNumber? ν target = some after) (shrinks : after < before)
  | forth {left right : List Char} {arrow : Arrow} (spelled : WritesChange part left arrow right)
      (leaves : Covers left source) (enters : Covers right target)
  | back {left right : List Char} {arrow : Arrow} (spelled : WritesChange part left arrow right)
      (bothWays : arrow.bothWays = true) (leaves : Covers right source) (enters : Covers left target)

/-- An expression admits a change of state: one of its parts between commas does, without the
blanks around it. -/
def ExpressionAdmits (ν : Type) [Scalar ν] (expression source target : String) : Prop :=
  ∃ part ∈ expression.toList.splitOn ',', PartAdmits ν source target (trimBlanks part)

/-! ## Arrows are found -/

theorem exists_arrow_of_arrow? {text rest : List Char} {bothWays : Bool}
    (read : Matcher.arrow? text = some (bothWays, rest)) :
    ∃ arrow : Arrow, arrow.bothWays = bothWays ∧ text = arrow.text ++ rest := by
  unfold Matcher.arrow? at read
  split at read
  · cases read
    exact ⟨⟨true, true⟩, rfl, rfl⟩
  · cases read
    exact ⟨⟨true, false⟩, rfl, rfl⟩
  · cases read
    exact ⟨⟨false, true⟩, rfl, rfl⟩
  · cases read
    exact ⟨⟨false, false⟩, rfl, rfl⟩
  · cases read

/-- Every text is blanks and what is left when they are skipped. -/
theorem exists_blanks (text : List Char) :
    ∃ blanks : List Char, (∀ c ∈ blanks, isBlank c = true) ∧ text = blanks ++ skipBlanks text :=
  ⟨text.takeWhile isBlank, fun _ member => List.mem_takeWhile_imp member,
    List.takeWhile_append_dropWhile.symm⟩

/-- An arrow behind blanks. -/
theorem exists_arrow_of_skipBlanks {text rest : List Char} {bothWays : Bool}
    (read : Matcher.arrow? (skipBlanks text) = some (bothWays, rest)) :
    ∃ (before : List Char) (arrow : Arrow), (∀ c ∈ before, isBlank c = true) ∧
      arrow.bothWays = bothWays ∧ text = before ++ (arrow.text ++ rest) := by
  obtain ⟨before, white, parted⟩ := exists_blanks text
  obtain ⟨arrow, direction, found⟩ := exists_arrow_of_arrow? read
  exact ⟨before, arrow, white, direction, found ▸ parted⟩

/-- A name that is read in front of an arrow stands there. -/
theorem exists_of_nameThenArrow? {text left rest : List Char} {bothWays : Bool}
    (read : Matcher.nameThenArrow? text = some (left, bothWays, rest)) :
    (left ≠ [] ∧ ∀ c ∈ left, Matcher.isNameChar c = true) ∧
      ∃ (before : List Char) (arrow : Arrow), (∀ c ∈ before, isBlank c = true) ∧
        arrow.bothWays = bothWays ∧ text = left ++ (before ++ (arrow.text ++ rest)) := by
  induction text generalizing left with
  | nil => cases read
  | cons c others ih =>
    rw [Matcher.nameThenArrow?] at read
    split at read
    · next letter =>
      cases deeper : Matcher.nameThenArrow? others with
      | some found =>
        obtain ⟨name, behind⟩ := found
        rw [deeper] at read
        cases read
        obtain ⟨⟨_, letters⟩, before, arrow, white, direction, parted⟩ := ih deeper
        refine ⟨⟨List.cons_ne_nil c name, List.forall_mem_cons.2 ⟨letter, letters⟩⟩, before, arrow,
          white, direction, ?_⟩
        rw [parted, List.cons_append]
      | none =>
        rw [deeper] at read
        obtain ⟨found, pointed, same⟩ := Option.map_eq_some_iff.1 read
        cases same
        obtain ⟨before, arrow, white, direction, parted⟩ := exists_arrow_of_skipBlanks pointed
        refine ⟨⟨List.cons_ne_nil c [], ?_⟩, before, arrow, white, direction, ?_⟩
        · intro other member
          rw [List.mem_singleton.1 member]
          exact letter
        · rw [parted, List.cons_append, List.nil_append]
    · cases read

/-- What is read on the left of an arrow may stand on a side. -/
theorem exists_of_leftSide? {text left rest : List Char} {bothWays : Bool}
    (read : Matcher.leftSide? text = some (left, bothWays, rest)) :
    IsSide left ∧ ∃ (before : List Char) (arrow : Arrow), (∀ c ∈ before, isBlank c = true) ∧
      arrow.bothWays = bothWays ∧ text = left ++ (before ++ (arrow.text ++ rest)) := by
  unfold Matcher.leftSide? at read
  split at read
  · obtain ⟨found, pointed, same⟩ := Option.map_eq_some_iff.1 read
    cases same
    obtain ⟨before, arrow, white, direction, parted⟩ := exists_arrow_of_skipBlanks pointed
    refine ⟨.inl rfl, before, arrow, white, direction, ?_⟩
    rw [parted, List.cons_append, List.nil_append]
  · obtain ⟨name, stands⟩ := exists_of_nameThenArrow? read
    exact ⟨.inr name, stands⟩

/-- **What is read as a change is written as one.** -/
theorem exists_of_ofArrow? {text : List Char} {matchers : List Matcher}
    (read : Matcher.ofArrow? text = some matchers) :
    ∃ (left : List Char) (arrow : Arrow) (right : List Char), WritesChange text left arrow right ∧
      matchers = arrowMatchers (String.ofList left) arrow.bothWays (String.ofList right) := by
  cases begins : Matcher.leftSide? text with
  | none =>
    rw [Matcher.ofArrow?, begins] at read
    cases read
  | some found =>
    obtain ⟨left, bothWays, rest⟩ := found
    obtain ⟨leftSide, before, arrow, white, rfl, rfl⟩ := exists_of_leftSide? begins
    obtain ⟨behind, whiteBehind, parted⟩ := exists_blanks rest
    rw [ofArrow?_of_leftSide? begins] at read
    split at read
    · next stands =>
      have written : WritesChange (left ++ (before ++ (arrow.text ++ (behind ++ skipBlanks rest))))
          left arrow (skipBlanks rest) :=
        .between leftSide ((isSide_iff _).2 stands) white whiteBehind
      rw [← parted] at written
      exact ⟨left, arrow, skipBlanks rest, written, (Option.some.inj read).symm⟩
    · cases read

namespace WritesChange

variable {text left right : List Char} {arrow : Arrow}

/-- What is written as a change is read as one, and there is one way only to read it. -/
theorem ofArrow?_eq (written : WritesChange text left arrow right) :
    Matcher.ofArrow? text =
      some (arrowMatchers (String.ofList left) arrow.bothWays (String.ofList right)) := by
  obtain ⟨leftSide, rightSide, white, whiteBehind⟩ := written
  exact ofArrow?_of_isSide leftSide rightSide arrow white whiteBehind

/-- No change is written with a colon in front. -/
theorem head_ne (written : WritesChange text left arrow right) : ∀ c ∈ text.head?, c ≠ ':' := by
  obtain ⟨leftSide, _, _, _⟩ := written
  have filled : left ≠ [] := by
    rcases leftSide with rfl | ⟨filled, _⟩
    · exact List.cons_ne_nil '*' []
    · exact filled
  rw [List.head?_append_of_ne_nil _ filled]
  exact fun c first => (leftSide.head_ne c first).2

end WritesChange

/-! ## Parts are read -/

/-- A state with one name only is covered by that name and by the name for any state. -/
theorem covers_ofList_iff {side : List Char} {state : String}
    (plain : state ∉ ["true", "false", "1", "0"]) :
    Matcher.covers (String.ofList side) state = true ↔ Covers side state := by
  have single : Matcher.sameBoolean (String.ofList side) state = false := by
    refine Bool.eq_false_iff.2 fun same => plain ?_
    have named := (Matcher.sameBoolean_iff _ _).1 same
    simp only [List.mem_cons, List.not_mem_nil, or_false]
    rcases named with ⟨_, rfl | rfl⟩ | ⟨_, rfl | rfl⟩ <;> simp
  have any : String.ofList side = anyState ↔ side = ['*'] :=
    ⟨fun same => String.ofList_inj.1 same, fun same => same ▸ rfl⟩
  rw [Matcher.covers_iff, Matcher.SameState, single, any, Covers]
  simp only [Bool.false_eq_true, or_false]

section

variable {ν : Type} [Scalar ν] {source target : String} {part : List Char}

/-- What is made of a change admits what the sides cover. -/
theorem admits_arrowMatchers_ofList_iff {left right : List Char} {bothWays : Bool}
    (plainSource : source ∉ ["true", "false", "1", "0"])
    (plainTarget : target ∉ ["true", "false", "1", "0"]) :
    (∃ matcher ∈ arrowMatchers (String.ofList left) bothWays (String.ofList right),
      matcher.admits ν source target = true) ↔
      Covers left source ∧ Covers right target ∨
        bothWays = true ∧ Covers left target ∧ Covers right source := by
  rw [admits_arrowMatchers_iff]
  simp only [covers_ofList_iff plainSource, covers_ofList_iff plainTarget]

/-- Beside the aliases, a part admits what it writes. -/
theorem partAdmits_iff_of_head (plain : ∀ c ∈ part.head?, c ≠ ':') :
    PartAdmits ν source target part ↔
      ∃ (left : List Char) (arrow : Arrow) (right : List Char),
        WritesChange part left arrow right ∧
          (Covers left source ∧ Covers right target ∨
            arrow.bothWays = true ∧ Covers left target ∧ Covers right source) := by
  constructor
  · intro admitted
    cases admitted with
    | enter spelled | leave spelled | increment spelled | decrement spelled =>
      subst spelled
      exact absurd rfl (plain ':' rfl)
    | forth spelled leaves enters => exact ⟨_, _, _, spelled, .inl ⟨leaves, enters⟩⟩
    | back spelled bothWays leaves enters =>
      exact ⟨_, _, _, spelled, .inr ⟨bothWays, enters, leaves⟩⟩
  · rintro ⟨left, arrow, right, spelled, ⟨leaves, enters⟩ | ⟨bothWays, enters, leaves⟩⟩
    · exact .forth spelled leaves enters
    · exact .back spelled bothWays leaves enters

/-- A part with a colon in front is no change, so it admits what the alias does. -/
theorem partAdmits_iff_of_colon (colon : ':' ∈ part.head?) :
    PartAdmits ν source target part ↔
      part = ":enter".toList ∧ source = "void" ∨ part = ":leave".toList ∧ target = "void" ∨
        part = ":increment".toList ∧ Alternative.increment.Admits ν source target ∨
          part = ":decrement".toList ∧ Alternative.decrement.Admits ν source target := by
  constructor
  · intro admitted
    cases admitted with
    | enter spelled fromVoid => exact .inl ⟨spelled, fromVoid⟩
    | leave spelled toVoid => exact .inr (.inl ⟨spelled, toVoid⟩)
    | increment spelled first second grows =>
      exact .inr (.inr (.inl ⟨spelled, _, _, first, second, grows⟩))
    | decrement spelled first second shrinks =>
      exact .inr (.inr (.inr ⟨spelled, _, _, first, second, shrinks⟩))
    | forth spelled | back spelled => exact absurd rfl (spelled.head_ne ':' colon)
  · rintro (⟨spelled, fromVoid⟩ | ⟨spelled, toVoid⟩ | ⟨spelled, _, _, first, second, grows⟩ |
      ⟨spelled, _, _, first, second, shrinks⟩)
    · exact .enter spelled fromVoid
    · exact .leave spelled toVoid
    · exact .increment spelled first second grows
    · exact .decrement spelled first second shrinks

omit [Scalar ν] in
/-- Of the parts with a colon in front only the four aliases are read without a problem. -/
theorem eq_alias_of_silent (colon : ':' ∈ part.head?)
    (silent : (Matcher.ofPart (String.ofList part) : List Matcher × List (Problem ν)).2 = []) :
    part = ":enter".toList ∨ part = ":leave".toList ∨ part = ":increment".toList ∨
      part = ":decrement".toList := by
  by_contra other
  simp only [not_or] at other
  obtain ⟨notEnter, notLeave, notIncrement, notDecrement⟩ := other
  have apart {name : String} (different : part ≠ name.toList) : String.ofList part ≠ name := by
    rintro rfl
    exact different String.toList_ofList.symm
  obtain ⟨rest, rfl⟩ := List.head?_eq_some_iff.1 colon
  rw [Matcher.ofPart, String.toList_ofList] at silent
  simp only [apart notEnter, apart notLeave, apart notIncrement, apart notDecrement, if_false] at silent
  exact List.cons_ne_nil _ _ silent

/-- What reading makes of a part admits what the part admits. -/
theorem admits_ofPart_iff (plainSource : source ∉ ["true", "false", "1", "0"])
    (plainTarget : target ∉ ["true", "false", "1", "0"])
    (silent : (Matcher.ofPart (String.ofList part) : List Matcher × List (Problem ν)).2 = []) :
    (∃ matcher ∈ (Matcher.ofPart (String.ofList part) : List Matcher × List (Problem ν)).1,
      matcher.admits ν source target = true) ↔ PartAdmits ν source target part := by
  by_cases colon : ':' ∈ part.head?
  · rw [partAdmits_iff_of_colon colon]
    rcases eq_alias_of_silent colon silent with rfl | rfl | rfl | rfl
    · rw [ofPart_of_spells .enter, Alternative.admits_matchers_iff]
      simp [Alternative.Admits]
    · rw [ofPart_of_spells .leave, Alternative.admits_matchers_iff]
      simp [Alternative.Admits]
    · rw [ofPart_of_spells .increment, Alternative.admits_matchers_iff]
      simp
    · rw [ofPart_of_spells .decrement, Alternative.admits_matchers_iff]
      simp
  · have plain : ∀ c ∈ part.head?, c ≠ ':' := by
      rintro c first rfl
      exact colon first
    have arrow : (Matcher.ofPart (String.ofList part) : List Matcher × List (Problem ν)) =
        Matcher.ofArrow (String.ofList part) := by
      rw [Matcher.ofPart, String.toList_ofList]
      split
      · exact absurd rfl (plain ':' rfl)
      · rfl
    rw [partAdmits_iff_of_head plain]
    rw [arrow, Matcher.ofArrow, String.toList_ofList] at silent ⊢
    cases read : Matcher.ofArrow? part with
    | none =>
      rw [read] at silent
      exact absurd silent (List.cons_ne_nil _ _)
    | some matchers =>
      constructor
      · intro admitted
        obtain ⟨left, found, right, written, rfl⟩ := exists_of_ofArrow? read
        exact ⟨left, found, right, written,
          (admits_arrowMatchers_ofList_iff plainSource plainTarget).1 admitted⟩
      · rintro ⟨left, found, right, written, admitted⟩
        have same := Option.some.inj (written.ofArrow?_eq.symm.trans read)
        rw [← same]
        exact (admits_arrowMatchers_ofList_iff plainSource plainTarget).2 admitted

end

end TransitionGrammar

/-! ## Expressions are read -/

/-- The parts between commas are those of the standard split. -/
theorem splitCommas_eq_splitOn (text : List Char) : splitCommas text = text.splitOn ',' := by
  induction text with
  | nil => rfl
  | cons c rest ih =>
    have step : (c :: rest).splitOn ',' =
        if c = ',' then [] :: rest.splitOn ','
        else (rest.splitOn ',').modifyHead (List.cons c) := by
      simp only [List.splitOn, List.splitOnP_cons_eq_if_modifyHead, beq_iff_eq]
    rw [step, splitCommas, ih]
    split
    · rfl
    · cases parts : rest.splitOn ',' with
      | nil => exact absurd parts (List.splitOnP_ne_nil _ rest)
      | cons part parts => rfl

open TransitionGrammar in
/-- **What an accepted expression admits** can be told from its text: a matcher of an expression
that is read without a problem admits a change between states with one name each exactly when a
part of the expression does. -/
theorem Matcher.admits_ofExpression_iff {ν : Type} [Scalar ν] {expression source target : String}
    (plainSource : source ∉ ["true", "false", "1", "0"])
    (plainTarget : target ∉ ["true", "false", "1", "0"])
    (silent : (ofExpression expression : List Matcher × List (Problem ν)).2 = []) :
    (∃ matcher ∈ (ofExpression expression : List Matcher × List (Problem ν)).1,
      matcher.admits ν source target = true) ↔ ExpressionAdmits ν expression source target := by
  simp only [ofExpression, commaList, splitCommas_eq_splitOn, List.map_map] at silent ⊢
  have silentPart : ∀ part ∈ expression.toList.splitOn ',',
      (ofPart (String.ofList (trimBlanks part)) : List Matcher × List (Problem ν)).2 = [] := by
    intro part member
    exact List.flatMap_eq_nil_iff.1 silent _ (List.mem_map_of_mem member)
  constructor
  · rintro ⟨matcher, member, admitted⟩
    obtain ⟨read, listed, among⟩ := List.mem_flatMap.1 member
    obtain ⟨part, between, rfl⟩ := List.mem_map.1 listed
    exact ⟨part, between, (admits_ofPart_iff plainSource plainTarget (silentPart part between)).1
      ⟨matcher, among, admitted⟩⟩
  · rintro ⟨part, between, admitted⟩
    obtain ⟨matcher, among, admits⟩ :=
      (admits_ofPart_iff plainSource plainTarget (silentPart part between)).2 admitted
    exact ⟨matcher, List.mem_flatMap.2 ⟨_, List.mem_map_of_mem between, among⟩, admits⟩

end Storyboard
