import Storyboard.Json
import Storyboard.Proofs.Json.Tokens

/-!
# Documents that are read back

The text of a readable value is read as that value (`Json.read?_text`). Its tokens are legible one
behind the other: a number is followed by a separator, a closing bracket or the end. Taken one by
one they lead a reader from the start of a value to the value complete, whatever is open around it
(`Json.foldlM_tokens`).
-/

set_option autoImplicit false

namespace Storyboard

namespace Json

open Token (Legible EndsNumber rowText)

variable (ν : Type) [Scalar ν]

/-! ## Legible tokens -/

/-- Further elements and the end of their array cannot extend a number. -/
theorem endsNumber_elements (elements : List Json) (rest : List Char) :
    EndsNumber (rowText (elementTokens elements ++ [.rightBracket]) ++ rest) := by
  cases elements with
  | nil => exact .cons _ (by decide)
  | cons element others => exact .cons _ (by decide)

/-- Further members and the end of their object cannot extend a number. -/
theorem endsNumber_members (members : List (String × Json)) (rest : List Char) :
    EndsNumber (rowText (memberTokens members ++ [.rightBrace]) ++ rest) := by
  cases members with
  | nil => exact .cons _ (by decide)
  | cons member others => exact .cons _ (by decide)

mutual

theorem legible_tokens : ∀ json : Json, json.isReadable ν = true → ∀ rest, EndsNumber rest →
    Legible json.tokens rest
  | .null, _, _, _ | .bool _, _, _, _ | .string _, _, _, _ => ⟨trivial, trivial⟩
  | .number _, _, _, ends => ⟨ends, trivial⟩
  | .array [], _, _, _ | .object [], _, _, _ => ⟨trivial, trivial, trivial⟩
  | .array (element :: others), readable, rest, _ => by
    rw [isReadable, elementsReadable, Bool.and_eq_true] at readable
    have closed := legible_elements others readable.2 rest
    rw [tokens, List.append_assoc]
    exact ⟨trivial, closed.append
      (legible_tokens element readable.1 _ (endsNumber_elements others rest))⟩
  | .object ((name, value) :: others), readable, rest, _ => by
    rw [isReadable, membersReadable, Bool.and_eq_true] at readable
    have closed := legible_members others readable.2 rest
    rw [tokens, List.append_assoc]
    exact ⟨trivial, trivial, trivial, closed.append
      (legible_tokens value readable.1 _ (endsNumber_members others rest))⟩
  | .unpaired, readable, _, _ => by
    rw [isReadable] at readable
    exact absurd readable Bool.false_ne_true

theorem legible_elements : ∀ elements : List Json, elementsReadable ν elements = true → ∀ rest,
    Legible (elementTokens elements ++ [.rightBracket]) rest
  | [], _, _ => ⟨trivial, trivial⟩
  | element :: others, readable, rest => by
    rw [elementsReadable, Bool.and_eq_true] at readable
    have closed := legible_elements others readable.2 rest
    rw [elementTokens, List.cons_append, List.append_assoc]
    exact ⟨trivial, closed.append
      (legible_tokens element readable.1 _ (endsNumber_elements others rest))⟩

theorem legible_members : ∀ members : List (String × Json), membersReadable ν members = true →
    ∀ rest, Legible (memberTokens members ++ [.rightBrace]) rest
  | [], _, _ => ⟨trivial, trivial⟩
  | (name, value) :: others, readable, rest => by
    rw [membersReadable, Bool.and_eq_true] at readable
    have closed := legible_members others readable.2 rest
    rw [memberTokens, List.cons_append, List.cons_append, List.cons_append, List.append_assoc]
    exact ⟨trivial, trivial, trivial, closed.append
      (legible_tokens value readable.1 _ (endsNumber_members others rest))⟩

end

/-! ## Values from tokens -/

/-- The tokens lead from one state of the reader to another. -/
def Reader.Leads (reader : Reader) (tokens : List Token) (after : Reader) : Prop :=
  tokens.foldlM Reader.step reader = some after

theorem Reader.Leads.cons {reader middle after : Reader} {token : Token} {tokens : List Token}
    (first : reader.step token = some middle) (others : middle.Leads tokens after) :
    reader.Leads (token :: tokens) after := by
  rw [Leads, List.foldlM_cons, first]
  exact others

theorem Reader.Leads.append {reader middle after : Reader} {first second : List Token}
    (before : reader.Leads first middle) (behind : middle.Leads second after) :
    reader.Leads (first ++ second) after := by
  rw [Leads, List.foldlM_append, before]
  exact behind

/-- A value may start: the reader takes any token but the end of an array as the start of one. -/
def Reader.Starts (reader : Reader) (frames : List Frame) : Prop :=
  ∀ token, token ≠ .rightBracket → reader.step token = Reader.startValue frames token

theorem Reader.starts_value (frames : List Frame) : Starts ⟨frames, .value⟩ frames :=
  fun _ _ => rfl

theorem Reader.starts_firstElement (frames : List Frame) :
    Starts ⟨frames, .firstElement⟩ (.array [] :: frames) := by
  intro token other
  rw [step, if_neg other]

/-- A member whose name is a text. -/
def named (member : String × Json) : Member :=
  (some member.1, member.2)

theorem ofMembers_map_named (members : List (String × Json)) :
    ofMembers (members.map named) = .object members.reverse := by
  have texts : (members.map named).reverse.mapM
      (fun member : Member => member.1.map fun name => (name, member.2)) =
        some members.reverse := by
    have kept := List.mapM_pure (m := Option) (l := members.reverse) (f := id)
    rw [List.map_id] at kept
    rw [← List.map_reverse, List.mapM_map]
    exact kept
  rw [ofMembers, texts]

mutual

/-- From wherever a value may start, the tokens of a value lead to the value complete. -/
theorem leads_tokens : ∀ json : Json, json.isReadable ν = true →
    ∀ (frames : List Frame) (reader : Reader), reader.Starts frames →
      reader.Leads json.tokens ⟨frames, .complete json⟩
  | .null, _, _, _, starts | .bool _, _, _, _, starts | .number _, _, _, _, starts
  | .string _, _, _, _, starts => .cons (starts _ (by simp)) rfl
  | .array [], _, _, _, starts | .object [], _, _, _, starts => .cons (starts _ (by simp)) rfl
  | .array (element :: others), readable, frames, reader, starts => by
    rw [isReadable, elementsReadable, Bool.and_eq_true] at readable
    rw [tokens, List.append_assoc]
    have opened : reader.step .leftBracket = some ⟨frames, .firstElement⟩ := starts _ (by simp)
    have first := leads_tokens element readable.1 _ _ (Reader.starts_firstElement frames)
    exact .cons opened (first.append (leads_elements others readable.2 [] element frames))
  | .object ((name, value) :: others), readable, frames, reader, starts => by
    rw [isReadable, membersReadable, Bool.and_eq_true] at readable
    rw [tokens, List.append_assoc]
    have opened : reader.step .leftBrace = some ⟨frames, .name [] true⟩ := starts _ (by simp)
    have first := leads_tokens value readable.1 _ _
      (Reader.starts_value (.object [] (some name) :: frames))
    exact .cons opened (.cons rfl (.cons rfl
      (first.append (leads_members others readable.2 [] name value frames))))
  | .unpaired, readable, _, _, _ => by
    rw [isReadable] at readable
    exact absurd readable Bool.false_ne_true

/-- The tokens of further elements and the end of their array complete the array. -/
theorem leads_elements : ∀ elements : List Json, elementsReadable ν elements = true →
    ∀ (before : List Json) (value : Json) (frames : List Frame),
      Reader.Leads ⟨.array before :: frames, .complete value⟩
        (elementTokens elements ++ [.rightBracket])
        ⟨frames, .complete (.array (before.reverse ++ value :: elements))⟩
  | [], _, before, value, frames => by
    have reversed : before.reverse ++ [value] = (value :: before).reverse := by
      rw [List.reverse_cons]
    rw [reversed]
    rfl
  | element :: others, readable, before, value, frames => by
    rw [elementsReadable, Bool.and_eq_true] at readable
    have reversed : before.reverse ++ value :: element :: others =
        (value :: before).reverse ++ element :: others := by
      rw [List.reverse_cons, List.append_assoc, List.singleton_append]
    rw [elementTokens, List.cons_append, List.append_assoc, reversed]
    have next := leads_tokens element readable.1 _ _
      (Reader.starts_value (.array (value :: before) :: frames))
    have further := leads_elements others readable.2 (value :: before) element frames
    exact .cons rfl (next.append further)

/-- The tokens of further members and the end of their object complete the object. -/
theorem leads_members : ∀ members : List (String × Json), membersReadable ν members = true →
    ∀ (before : List (String × Json)) (name : String) (value : Json) (frames : List Frame),
      Reader.Leads ⟨.object (before.map named) (some name) :: frames, .complete value⟩
        (memberTokens members ++ [.rightBrace])
        ⟨frames, .complete (.object (before.reverse ++ (name, value) :: members))⟩
  | [], _, before, name, value, frames => by
    have closed := ofMembers_map_named ((name, value) :: before)
    rw [List.reverse_cons] at closed
    rw [← closed]
    rfl
  | (next, element) :: others, readable, before, name, value, frames => by
    rw [membersReadable, Bool.and_eq_true] at readable
    have reversed : before.reverse ++ (name, value) :: (next, element) :: others =
        ((name, value) :: before).reverse ++ (next, element) :: others := by
      rw [List.reverse_cons, List.append_assoc, List.singleton_append]
    rw [memberTokens, List.cons_append, List.cons_append, List.cons_append, List.append_assoc,
      reversed]
    have further := leads_tokens element readable.1 _ _
      (Reader.starts_value (.object (((name, value) :: before).map named) (some next) :: frames))
    exact .cons rfl (.cons rfl (.cons rfl (further.append
      (leads_members others readable.2 ((name, value) :: before) next element frames))))

end

/-- The text of a readable value is read as that value. -/
theorem read?_text {json : Json} (readable : json.isReadable ν = true) :
    read? (json.text false) = some json := by
  have legible := legible_tokens ν json readable [] Token.endsNumber_nil
  have scanned := Token.readAll?_rowText legible
  have built := leads_tokens ν json readable [] _ (Reader.starts_value [])
  rw [read?, text, String.toList_ofList]
  change (Token.readAll? (rowText json.tokens)).bind ofTokens? = some json
  rw [scanned, Option.bind_some, ofTokens?, built]
  rfl

end Json

end Storyboard
