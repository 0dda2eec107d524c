import Storyboard.Proofs.Json.Literals

/-!
# Tokens in a document

The spelling of a token is read back as the token and leaves what follows (`Token.read?_spelling`),
except that a number needs something behind it that cannot extend it. In a row of tokens this is
asked of every token with what is really written behind it (`Token.Legible`), and a legible row is
read back (`Token.readAll?_rowText`).
-/

set_option autoImplicit false

namespace Storyboard

namespace Token

/-! ## Strings -/

theorem hexValue?_hexDigit : ∀ value : Fin 16, hexValue? (hexDigit value.val) = some value.val := by
  decide

/-- The escape of a code unit names the code unit. -/
theorem codeUnit?_unitEscape {code : Nat} (unit : code < 0x10000) :
    codeUnit? (hexDigit (code / 4096 % 16)) (hexDigit (code / 256 % 16))
      (hexDigit (code / 16 % 16)) (hexDigit (code % 16)) = some code := by
  have digit : ∀ value : Nat, hexValue? (hexDigit (value % 16)) = some (value % 16) := fun value =>
    hexValue?_hexDigit ⟨value % 16, Nat.mod_lt value (by decide)⟩
  have parts : ((code / 4096 % 16 * 16 + code / 256 % 16) * 16 + code / 16 % 16) * 16 + code % 16 =
      code := by omega
  rw [codeUnit?, digit, digit, digit, digit]
  exact congrArg some parts

/-- The piece of a character and the pieces read behind it. -/
def consPiece (c : Char) (read : Option (List Piece × List Char)) :
    Option (List Piece × List Char) :=
  read.map fun (pieces, after) => (.char c :: pieces, after)

theorem pieces?_escape {letter c : Char} (named : escaped? letter = some c) (rest : List Char) :
    pieces? ('\\' :: letter :: rest) = consPiece c (pieces? rest) := by
  have notUnit : letter ≠ 'u' := by
    rintro rfl
    have unnamed : escaped? 'u' = none := rfl
    exact absurd (unnamed.symm.trans named) (by simp)
  rw [pieces?]
  · rw [named]
    cases pieces? rest <;> rfl
  · intro _ _ _ _ _ same
    exact absurd same notUnit

theorem pieces?_unitEscape {code : Nat} (low : code < 0xD800) (rest : List Char) :
    pieces? (unitEscape code ++ rest) = consPiece (Char.ofNat code) (pieces? rest) := by
  have piece : Piece.ofUnit code = .char (Char.ofNat code) :=
    if_neg (by omega)
  have named := codeUnit?_unitEscape (show code < 0x10000 by omega)
  have read : pieces? (unitEscape code ++ rest) = (do
      let code ← codeUnit? (hexDigit (code / 4096 % 16)) (hexDigit (code / 256 % 16))
        (hexDigit (code / 16 % 16)) (hexDigit (code % 16))
      let (pieces, after) ← pieces? rest
      return (Piece.ofUnit code :: pieces, after)) := rfl
  rw [read, named, consPiece, ← piece]
  cases pieces? rest <;> rfl

theorem pieces?_plain {c : Char} (noQuote : c ≠ '"') (noEscape : c ≠ '\\') (printed : ¬c.toNat < 32)
    (rest : List Char) : pieces? (c :: rest) = consPiece c (pieces? rest) := by
  have read : pieces? (c :: rest) = (do
      let (pieces, after) ← pieces? rest
      return (.char c :: pieces, after)) := by
    rw [pieces?, if_neg (not_or.2 ⟨noEscape, printed⟩)]
    · exact noQuote
    · exact fun _ _ _ _ _ same => absurd same noEscape
    · exact fun _ _ same => absurd same noEscape
  rw [read]
  cases pieces? rest <;> rfl

/-- A character as it is written in a string is read as that character. -/
theorem pieces?_charText (c : Char) (rest : List Char) :
    pieces? (charText false c ++ rest) = consPiece c (pieces? rest) := by
  have control : ∀ code : Nat, c.toNat = code → c = Char.ofNat code := by
    rintro code rfl
    exact (Char.ofNat_toNat c).symm
  unfold charText
  split
  · next quote =>
    subst quote
    exact pieces?_escape rfl rest
  split
  · next backslash =>
    subst backslash
    exact pieces?_escape rfl rest
  split
  · next lineFeed =>
    subst lineFeed
    exact pieces?_escape rfl rest
  split
  · next carriageReturn =>
    subst carriageReturn
    exact pieces?_escape rfl rest
  split
  · next tab =>
    subst tab
    exact pieces?_escape rfl rest
  split
  · next backspace =>
    rw [control 8 backspace]
    exact pieces?_escape rfl rest
  split
  · next formFeed =>
    rw [control 12 formFeed]
    exact pieces?_escape rfl rest
  split
  · next unprinted =>
    rw [pieces?_unitEscape (by omega), Char.ofNat_toNat]
  · next noQuote noEscape _ _ _ _ _ printed => exact pieces?_plain noQuote noEscape printed rest

theorem pieces?_flatMap (characters rest : List Char) :
    pieces? (characters.flatMap (charText false) ++ '"' :: rest) =
      some (characters.map .char, rest) := by
  induction characters with
  | nil => rfl
  | cons c others ih =>
    rw [List.flatMap_cons, List.append_assoc, pieces?_charText, ih]
    rfl

theorem joinPieces?_map (characters : List Char) :
    joinPieces? (characters.map .char) = some characters := by
  induction characters with
  | nil => rfl
  | cons c others ih => rw [List.map_cons, joinPieces?, ih, Option.map_some]

theorem read?_string (text : String) (rest : List Char) :
    read? (stringText false text ++ rest) = some (.string (some text), rest) := by
  have opened : ∀ body : List Char, read? ('"' :: body) = (pieces? body).map fun (pieces, after) =>
      (.string ((joinPieces? pieces).map String.ofList), after) := fun _ => rfl
  rw [stringText, List.cons_append, List.append_assoc, List.singleton_append, opened,
    pieces?_flatMap text.toList rest, Option.map_some]
  simp only [joinPieces?_map, Option.map_some, String.ofList_toList]

/-! ## Tokens -/

/-- What follows a token on the page does not change how the token is read. -/
def EndsAt (rest : List Char) : Token → Prop
  | .number _ => EndsNumber rest
  | .string none => False
  | _ => True

/-- The spelling of a token is read as the token. -/
theorem read?_spelling {token : Token} {rest : List Char} (ends : token.EndsAt rest) :
    read? (token.spelling false ++ rest) = some (token, rest) := by
  cases token with
  | number literal => exact read?_number literal ends
  | string text =>
    cases text with
    | none => exact absurd ends id
    | some text => exact read?_string text rest
  | bool value => cases value <;> rfl
  | leftBracket | rightBracket | leftBrace | rightBrace | colon | comma | null => rfl

theorem isSpace_toChar : ∀ digit : Digit, isSpace digit.toChar = false := by
  decide

/-- A token begins with a character that is no space. -/
theorem spelling_begins (token : Token) :
    ∃ c others, token.spelling false = c :: others ∧ isSpace c = false := by
  cases token with
  | number literal =>
    obtain ⟨row, spelled, -, filled, -⟩ := exists_row literal.whole
    change ∃ c others, literal.text = c :: others ∧ isSpace c = false
    rw [Literal.text, spelled]
    cases literal.negative with
    | true => exact ⟨'-', _, rfl, rfl⟩
    | false =>
      cases row with
      | nil => exact absurd rfl filled
      | cons first others =>
        exact ⟨first.toChar, _, rfl, isSpace_toChar first⟩
  | string text => cases text <;> exact ⟨_, _, rfl, rfl⟩
  | bool value => cases value <;> exact ⟨_, _, rfl, rfl⟩
  | leftBracket | rightBracket | leftBrace | rightBrace | colon | comma | null =>
    exact ⟨_, _, rfl, rfl⟩

/-! ## Rows of tokens -/

/-- How tokens are written one behind the other. -/
def rowText (tokens : List Token) : List Char :=
  tokens.flatMap (spelling false)

/-- Every token of a row ends where what is written behind it begins. -/
def Legible : List Token → List Char → Prop
  | [], _ => True
  | token :: tokens, rest => token.EndsAt (rowText tokens ++ rest) ∧ Legible tokens rest

theorem rowText_append (first second : List Token) :
    rowText (first ++ second) = rowText first ++ rowText second :=
  List.flatMap_append

/-- Two rows are legible one behind the other if each is with what is written behind it. -/
theorem Legible.append {second : List Token} {rest : List Char} (behind : Legible second rest) :
    ∀ {first : List Token}, Legible first (rowText second ++ rest) → Legible (first ++ second) rest
  | [], _ => behind
  | token :: first, before => by
    have split : rowText (first ++ second) ++ rest = rowText first ++ (rowText second ++ rest) := by
      rw [rowText_append, List.append_assoc]
    exact ⟨split ▸ before.1, append behind before.2⟩

theorem length_le_rowText : ∀ tokens : List Token, tokens.length ≤ (rowText tokens).length
  | [] => Nat.le_refl 0
  | token :: tokens => by
    obtain ⟨c, others, spelled, -⟩ := token.spelling_begins
    have further := length_le_rowText tokens
    rw [rowText, List.flatMap_cons, spelled, List.cons_append, List.length_cons, List.length_cons,
      List.length_append]
    rw [rowText] at further
    omega

/-- A legible row is read as its tokens, as long as the count lasts. -/
theorem readFrom?_rowText : ∀ (tokens : List Token) (count : Nat), Legible tokens [] →
    tokens.length ≤ count → readFrom? count (rowText tokens) = some tokens
  | [], count, _, _ => by
    unfold readFrom?
    rfl
  | token :: tokens, 0, _, enough => absurd enough (Nat.not_succ_le_zero _)
  | token :: tokens, count + 1, legible, enough => by
    obtain ⟨c, others, spelled, solid⟩ := token.spelling_begins
    have read := read?_spelling legible.1
    have further := readFrom?_rowText tokens count legible.2 (Nat.le_of_succ_le_succ enough)
    rw [List.append_nil] at read
    have begins : rowText (token :: tokens) = c :: (others ++ rowText tokens) := by
      rw [rowText, List.flatMap_cons, spelled, List.cons_append, rowText]
    rw [spelled, List.cons_append] at read
    rw [begins]
    unfold readFrom?
    simp only [List.dropWhile_cons, solid, Bool.false_eq_true, if_false, read, further,
      Option.bind_eq_bind, Option.bind_some]
    rfl

/-- A legible row is read as its tokens. -/
theorem readAll?_rowText {tokens : List Token} (legible : Legible tokens []) :
    readAll? (rowText tokens) = some tokens :=
  readFrom?_rowText tokens _ legible (length_le_rowText tokens)

end Token

end Storyboard
