import Storyboard.Number.Literal
import Storyboard.Number.Scalar

/-!
# JSON documents

A document as a tree of values. Objects keep their members in order and keep repeated names, and
numbers keep their spelling, because the records that are read from a document decide what a
repeated name or a fraction means.

The words of a document are its tokens: brackets, separators, names and numbers, with their
spelling (`Token.spelling`) and their reading (`Token.readAll?`). A document is written without
blanks; in reading, spaces, tabs and line ends may stand between tokens and nowhere else. Writing
spells the tokens of a value one behind the other (`Json.tokens`, `Json.text`). Reading keeps a
stack of the arrays and objects that are open and takes one token at a time; a document is the text
of exactly one value (`Json.read?`).
-/

set_option autoImplicit false

namespace Storyboard

/-! ## Values

A string escape may name half of a surrogate pair without the other half. Such a string is no
text, and an object with such a name has no members to look up; both are the value `unpaired`,
which every record refuses but an ignored part of a document may hold. -/

/-- A JSON value. -/
inductive Json where
  | null
  | bool (value : Bool)
  | number (literal : Literal)
  | string (text : String)
  | array (elements : List Json)
  | object (members : List (String × Json))
  | unpaired

namespace Json

mutual

/-- How many arrays and objects are nested in one another at most. -/
def depth : Json → Nat
  | .array elements => depthOfElements elements + 1
  | .object members => depthOfMembers members + 1
  | _ => 0

/-- The greatest depth among elements. -/
def depthOfElements : List Json → Nat
  | [] => 0
  | element :: rest => max element.depth (depthOfElements rest)

/-- The greatest depth among the values of members. -/
def depthOfMembers : List (String × Json) → Nat
  | [] => 0
  | (_, value) :: rest => max value.depth (depthOfMembers rest)

end

mutual

/-- Every string is a text and every number is in the range of the number type. -/
def isReadable (ν : Type) [Scalar ν] : Json → Bool
  | .number literal => (Scalar.ofLiteral? (ν := ν) literal).isSome
  | .array elements => elementsReadable ν elements
  | .object members => membersReadable ν members
  | .unpaired => false
  | _ => true

/-- All elements are readable. -/
def elementsReadable (ν : Type) [Scalar ν] : List Json → Bool
  | [] => true
  | element :: rest => isReadable ν element && elementsReadable ν rest

/-- The values of all members are readable. -/
def membersReadable (ν : Type) [Scalar ν] : List (String × Json) → Bool
  | [] => true
  | (_, value) :: rest => isReadable ν value && membersReadable ν rest

end

end Json

/-! ## Tokens

In a string, the quote, the backslash and the control characters are written as escapes; when only
ASCII may be written, so are the characters above it, as UTF-16 code units. -/

/-- A token of a document; a string whose surrogate escapes do not pair up has no text. -/
inductive Token where
  | leftBracket
  | rightBracket
  | leftBrace
  | rightBrace
  | colon
  | comma
  | null
  | bool (value : Bool)
  | number (literal : Literal)
  | string (text : Option String)
deriving DecidableEq

namespace Token

/-! ### Writing -/

/-- A hexadecimal digit in lower case. -/
def hexDigit (value : Nat) : Char :=
  if value < 10 then Char.ofNat (48 + value) else Char.ofNat (87 + value)

/-- The escape of a UTF-16 code unit. -/
def unitEscape (code : Nat) : List Char :=
  ['\\', 'u', hexDigit (code / 4096 % 16), hexDigit (code / 256 % 16), hexDigit (code / 16 % 16),
    hexDigit (code % 16)]

/-- The escapes of a character above ASCII: one code unit or a surrogate pair. -/
def wideEscape (code : Nat) : List Char :=
  if code < 0x10000 then unitEscape code
  else
    unitEscape (0xD800 + (code - 0x10000) / 1024) ++ unitEscape (0xDC00 + (code - 0x10000) % 1024)

/-- How a character is written inside of a string. -/
def charText (asciiOnly : Bool) (c : Char) : List Char :=
  if c = '"' then ['\\', '"']
  else if c = '\\' then ['\\', '\\']
  else if c = '\n' then ['\\', 'n']
  else if c = '\r' then ['\\', 'r']
  else if c = '\t' then ['\\', 't']
  else if c.toNat = 8 then ['\\', 'b']
  else if c.toNat = 12 then ['\\', 'f']
  else if c.toNat < 32 then unitEscape c.toNat
  else if asciiOnly && 127 < c.toNat then wideEscape c.toNat
  else [c]

/-- How a string is written. -/
def stringText (asciiOnly : Bool) (text : String) : List Char :=
  '"' :: (text.toList.flatMap (charText asciiOnly) ++ ['"'])

/-- How a token is written; a string without a text is written as `null`. -/
def spelling (asciiOnly : Bool) : Token → List Char
  | leftBracket => ['[']
  | rightBracket => [']']
  | leftBrace => ['\x7b']
  | rightBrace => ['\x7d']
  | colon => [':']
  | comma => [',']
  | null => "null".toList
  | bool true => "true".toList
  | bool false => "false".toList
  | number literal => literal.text
  | string (some text) => stringText asciiOnly text
  | string none => "null".toList

/-! ### Reading strings -/

/-- The value of a hexadecimal digit. -/
def hexValue? (c : Char) : Option Nat :=
  let code := c.toNat
  if 48 ≤ code ∧ code ≤ 57 then some (code - 48)
  else if 97 ≤ code ∧ code ≤ 102 then some (code - 87)
  else if 65 ≤ code ∧ code ≤ 70 then some (code - 55)
  else none

/-- The code unit of four hexadecimal digits. -/
def codeUnit? (a b c d : Char) : Option Nat := do
  let a ← hexValue? a
  let b ← hexValue? b
  let c ← hexValue? c
  let d ← hexValue? d
  return ((a * 16 + b) * 16 + c) * 16 + d

/-- The character of a one-letter escape. -/
def escaped? (c : Char) : Option Char :=
  if c = '"' ∨ c = '\\' ∨ c = '/' then some c
  else if c = 'b' then some (Char.ofNat 8)
  else if c = 'f' then some (Char.ofNat 12)
  else if c = 'n' then some '\n'
  else if c = 'r' then some '\r'
  else if c = 't' then some '\t'
  else none

/-- A piece of a string as read: a character, or half of a surrogate pair. -/
inductive Piece where
  | char (c : Char)
  | half (code : Nat)
deriving DecidableEq

/-- The piece that a code unit names. -/
def Piece.ofUnit (code : Nat) : Piece :=
  if 0xD800 ≤ code ∧ code < 0xE000 then .half code else .char (Char.ofNat code)

/-- Reads the pieces up to the closing quote. -/
def pieces? : List Char → Option (List Piece × List Char)
  | [] => none
  | '"' :: rest => some ([], rest)
  | '\\' :: 'u' :: a :: b :: c :: d :: rest => do
    let code ← codeUnit? a b c d
    let (pieces, after) ← pieces? rest
    return (Piece.ofUnit code :: pieces, after)
  | '\\' :: c :: rest => do
    let c ← escaped? c
    let (pieces, after) ← pieces? rest
    return (.char c :: pieces, after)
  | c :: rest => do
    if c = '\\' ∨ c.toNat < 32 then none
    let (pieces, after) ← pieces? rest
    return (.char c :: pieces, after)

/-- Joins the halves of surrogate pairs; nothing if a half stands alone. -/
def joinPieces? : List Piece → Option (List Char)
  | [] => some []
  | .char c :: rest => (joinPieces? rest).map (c :: ·)
  | .half high :: .half low :: rest =>
    if high < 0xDC00 ∧ 0xDC00 ≤ low then
      (joinPieces? rest).map
        (Char.ofNat (0x10000 + (high - 0xD800) * 1024 + (low - 0xDC00)) :: ·)
    else none
  | .half _ :: _ => none

/-! ### Reading numbers -/

/-- Takes the decimal digits in front. -/
def digits : List Char → List Digit × List Char
  | [] => ([], [])
  | c :: rest =>
    match Digit.ofChar? c with
    | some digit =>
      let (more, after) := digits rest
      (digit :: more, after)
    | none => ([], c :: rest)

/-- The number that a row of digits writes. -/
def numberOf (row : List Digit) : Nat :=
  row.foldl (fun number digit => 10 * number + digit.val) 0

/-- The whole part of a number: one zero, or digits that do not start with one. -/
def whole? (text : List Char) : Option (Nat × List Char) :=
  match digits text with
  | ([], _) => none
  | (first :: rest, after) =>
    if first = 0 ∧ rest ≠ [] then none else some (numberOf (first :: rest), after)

/-- The digits behind a point, if a point comes next. -/
def fraction? : List Char → Option (List Digit × List Char)
  | '.' :: rest =>
    match digits rest with
    | ([], _) => none
    | (row, after) => some (row, after)
  | text => some ([], text)

/-- A sign that may stand in front of an exponent. -/
def exponentSign : List Char → Bool × List Char
  | '-' :: rest => (true, rest)
  | '+' :: rest => (false, rest)
  | text => (false, text)

/-- The exponent, if an exponent mark comes next. -/
def exponent? : List Char → Option (Option Int × List Char)
  | [] => some (none, [])
  | c :: rest =>
    if c = 'e' ∨ c = 'E' then
      let (negative, text) := exponentSign rest
      match digits text with
      | ([], _) => none
      | (row, after) =>
        some (some (if negative then -(numberOf row : Int) else numberOf row), after)
    else some (none, c :: rest)

/-- Reads a number without its sign. -/
def unsigned? (negative : Bool) (text : List Char) : Option (Token × List Char) := do
  let (whole, afterWhole) ← whole? text
  let (fraction, afterFraction) ← fraction? afterWhole
  let (exponent, after) ← exponent? afterFraction
  return (.number ⟨negative, whole, fraction, exponent⟩, after)

/-! ### Reading tokens -/

/-- Reads one token and what follows it. -/
def read? : List Char → Option (Token × List Char)
  | [] => none
  | '[' :: rest => some (.leftBracket, rest)
  | ']' :: rest => some (.rightBracket, rest)
  | '\x7b' :: rest => some (.leftBrace, rest)
  | '\x7d' :: rest => some (.rightBrace, rest)
  | ':' :: rest => some (.colon, rest)
  | ',' :: rest => some (.comma, rest)
  | 'n' :: 'u' :: 'l' :: 'l' :: rest => some (.null, rest)
  | 't' :: 'r' :: 'u' :: 'e' :: rest => some (.bool true, rest)
  | 'f' :: 'a' :: 'l' :: 's' :: 'e' :: rest => some (.bool false, rest)
  | '"' :: rest =>
    (pieces? rest).map fun (pieces, after) =>
      (.string ((joinPieces? pieces).map String.ofList), after)
  | '-' :: rest => unsigned? true rest
  | text => unsigned? false text

/-- A character that may stand between tokens. -/
def isSpace (c : Char) : Bool :=
  c == ' ' || c == '\t' || c == '\n' || c == '\r'

/-- Reads tokens as long as the count lasts. -/
def readFrom? : Nat → List Char → Option (List Token)
  | count, text =>
    match text.dropWhile isSpace with
    | [] => some []
    | c :: rest =>
      match count with
      | 0 => none
      | count + 1 => do
        let (token, after) ← read? (c :: rest)
        let tokens ← readFrom? count after
        return token :: tokens

/-- Reads a text as tokens; every token takes a character at least, so the length of the text is
count enough. -/
def readAll? (text : List Char) : Option (List Token) :=
  readFrom? text.length text

end Token

/-! ## Documents -/

namespace Json

/-! ### Writing -/

mutual

/-- The tokens of a value. -/
def tokens : Json → List Token
  | .null => [.null]
  | .bool value => [.bool value]
  | .number literal => [.number literal]
  | .string text => [.string (some text)]
  | .array [] => [.leftBracket, .rightBracket]
  | .array (element :: rest) =>
    .leftBracket :: (element.tokens ++ elementTokens rest ++ [.rightBracket])
  | .object [] => [.leftBrace, .rightBrace]
  | .object ((name, value) :: rest) =>
    .leftBrace :: .string (some name) :: .colon ::
      (value.tokens ++ memberTokens rest ++ [.rightBrace])
  | .unpaired => [.string none]

/-- The tokens of further elements, each behind a comma. -/
def elementTokens : List Json → List Token
  | [] => []
  | element :: rest => .comma :: (element.tokens ++ elementTokens rest)

/-- The tokens of further members, each behind a comma. -/
def memberTokens : List (String × Json) → List Token
  | [] => []
  | (name, value) :: rest =>
    .comma :: .string (some name) :: .colon :: (value.tokens ++ memberTokens rest)

end

/-- The text of a value, in ASCII alone if so asked. -/
def text (asciiOnly : Bool) (json : Json) : String :=
  String.ofList (json.tokens.flatMap (Token.spelling asciiOnly))

/-! ### Reading -/

/-- A member as read; the name is missing when it is no text. -/
abbrev Member := Option String × Json

/-- An array or object that is still open, with what it holds so far in reverse. -/
inductive Frame where
  | array (elements : List Json)
  | object (members : List Member) (name : Option String)

/-- What may come next. -/
inductive Phase where
  /-- A value must come. -/
  | value
  /-- An array was opened: a value or its end may come. -/
  | firstElement
  /-- A name must come, or the end if the object was just opened. -/
  | name (members : List Member) (justOpened : Bool)
  /-- The colon behind a name must come. -/
  | colon (members : List Member) (name : Option String)
  /-- A value is complete. -/
  | complete (value : Json)

/-- The open arrays and objects, innermost first, and what may come next. -/
structure Reader where
  frames : List Frame
  phase : Phase

/-- The object of some members in reverse; no object if a name is no text. -/
def ofMembers (members : List Member) : Json :=
  match members.reverse.mapM fun member => member.1.map fun name => (name, member.2) with
  | some members => .object members
  | none => .unpaired

/-- Starts a value. -/
def Reader.startValue (frames : List Frame) : Token → Option Reader
  | .null => some ⟨frames, .complete .null⟩
  | .bool value => some ⟨frames, .complete (.bool value)⟩
  | .number literal => some ⟨frames, .complete (.number literal)⟩
  | .string (some text) => some ⟨frames, .complete (.string text)⟩
  | .string none => some ⟨frames, .complete .unpaired⟩
  | .leftBracket => some ⟨frames, .firstElement⟩
  | .leftBrace => some ⟨frames, .name [] true⟩
  | _ => none

/-- Goes on behind a complete value. -/
def Reader.afterValue (value : Json) : List Frame → Token → Option Reader
  | .array elements :: frames, .comma => some ⟨.array (value :: elements) :: frames, .value⟩
  | .array elements :: frames, .rightBracket =>
    some ⟨frames, .complete (.array (value :: elements).reverse)⟩
  | .object members name :: frames, .comma =>
    some ⟨frames, .name ((name, value) :: members) false⟩
  | .object members name :: frames, .rightBrace =>
    some ⟨frames, .complete (ofMembers ((name, value) :: members))⟩
  | _, _ => none

/-- Takes one token. -/
def Reader.step (reader : Reader) (token : Token) : Option Reader :=
  match reader.phase with
  | .value => startValue reader.frames token
  | .firstElement =>
    if token = .rightBracket then some ⟨reader.frames, .complete (.array [])⟩
    else startValue (.array [] :: reader.frames) token
  | .name members justOpened =>
    match token with
    | .string name => some ⟨reader.frames, .colon members name⟩
    | .rightBrace =>
      if justOpened then some ⟨reader.frames, .complete (.object [])⟩ else none
    | _ => none
  | .colon members name =>
    if token = .colon then some ⟨.object members name :: reader.frames, .value⟩ else none
  | .complete value => afterValue value reader.frames token

/-- The value that has been read, if it is complete and nothing is open. -/
def Reader.result? : Reader → Option Json
  | ⟨[], .complete value⟩ => some value
  | _ => none

/-- Reads tokens as one value. -/
def ofTokens? (tokens : List Token) : Option Json :=
  (tokens.foldlM Reader.step ⟨[], .value⟩).bind Reader.result?

/-- Reads a text as one value. -/
def read? (text : String) : Option Json :=
  (Token.readAll? text.toList).bind ofTokens?

end Json

end Storyboard
