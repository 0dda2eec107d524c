import Mathlib.Data.List.Basic
import Mathlib.Data.List.TakeWhile
import Storyboard.Template

/-!
# Placeholders in a filled text

Whether a text begins with a placeholder is settled by the characters of the placeholder alone,
whatever follows them: the closing braces are the first ones (`Heads.placeholder`). So the spelling
of a placeholder is one in every text that contains it (`hasPlaceholder_of_mem_segments`), and a
placeholder that a scope does not bind is one in the filled text as well. A filled text without
placeholders has been filled completely (`fill_problems_of_settled`), and filling it again changes
nothing (`Value.fill_fill`).

The name in a placeholder is trimmed: no blank stands at its ends. Trimming gives such a text back
from between any blanks (`Trimmed.trimBlanks`), whatever blanks there are within it.
-/

set_option autoImplicit false

namespace Storyboard

/-- A row of characters of one kind is taken whole when the text behind it begins with a character
of another kind. -/
theorem takeWhile_row {kind : Char → Bool} {row rest : List Char} (all : ∀ c ∈ row, kind c = true)
    (stops : ∀ c tail, rest = c :: tail → kind c = false) :
    (row ++ rest).takeWhile kind = row ∧ (row ++ rest).dropWhile kind = rest := by
  have stands : rest.takeWhile kind = [] ∧ rest.dropWhile kind = rest := by
    cases rest with
    | nil => exact ⟨rfl, rfl⟩
    | cons c tail => simp [stops c tail rfl]
  constructor
  · rw [List.takeWhile_append_of_pos all, stands.1, List.append_nil]
  · rw [List.dropWhile_append_of_pos all, stands.2]

namespace Template

/-! ## Recognising by the characters read -/

/-- A reader recognises something at the start of a text and leaves a rest: the characters it has
passed over are enough for it to recognise something, whatever follows them. -/
def Heads {α : Type} (reader : List Char → Option (α × List Char)) (text rest : List Char) :
    Prop :=
  ∃ source, text = source ++ rest ∧ ∀ other, (reader (source ++ other)).isSome = true

/-- The first closing braces are found at the same place whatever follows them. -/
theorem untilClosing?_append {text inner after : List Char}
    (found : untilClosing? text = some (inner, after)) :
    text = inner ++ '}' :: '}' :: after ∧
      ∀ other, untilClosing? (inner ++ '}' :: '}' :: other) = some (inner, other) := by
  induction text generalizing inner with
  | nil => simp [untilClosing?] at found
  | cons c rest ih =>
    by_cases closes : ∃ behind, c = '}' ∧ rest = '}' :: behind
    · obtain ⟨behind, rfl, rfl⟩ := closes
      simp only [untilClosing?, Option.some.injEq, Prod.mk.injEq] at found
      obtain ⟨rfl, rfl⟩ := found
      exact ⟨rfl, fun other => by simp [untilClosing?]⟩
    · have goesOn : untilClosing? (c :: rest) =
          (untilClosing? rest).map fun found => (c :: found.1, found.2) := by
        rw [untilClosing?]
        rintro behind rfl rfl
        exact closes ⟨behind, rfl, rfl⟩
      rw [goesOn, Option.map_eq_some_iff] at found
      obtain ⟨⟨shorter, later⟩, foundLater, same⟩ := found
      obtain ⟨rfl, (rfl : later = after)⟩ := Prod.mk.inj same
      obtain ⟨split, again⟩ := ih foundLater
      refine ⟨by rw [split, List.cons_append], fun other => ?_⟩
      rw [List.cons_append, untilClosing?, again other]
      · rfl
      · -- The next character is the one that followed before, whatever comes behind the braces.
        rintro behind rfl next
        cases shorter with
        | nil => exact closes ⟨'}' :: later, rfl, split⟩
        | cons second others =>
          rw [List.cons_append, List.cons.injEq] at next
          exact closes ⟨others ++ '}' :: '}' :: later, rfl, by rw [split, next.1, List.cons_append]⟩

theorem Heads.name {text name after : List Char} (found : name? text = some (name, after)) :
    Heads name? text after := by
  cases text with
  | nil => simp [name?] at found
  | cons c rest =>
    rw [name?] at found
    cases closing : untilClosing? rest with
    | none => simp [closing] at found
    | some parts =>
      obtain ⟨inner, behind⟩ := parts
      simp only [closing] at found
      split at found
      · exact absurd found (by simp)
      · next plain =>
        cases found
        obtain ⟨split, again⟩ := untilClosing?_append closing
        refine ⟨c :: inner ++ ['}', '}'], by simp [split], fun other => ?_⟩
        have reached : c :: inner ++ ['}', '}'] ++ other = c :: (inner ++ '}' :: '}' :: other) := by
          simp
        rw [reached, name?, again other]
        simp only [plain]
        rfl

/-- A text that begins with a character that is no blank loses no blanks. -/
theorem skipBlanks_append {blanks body : List Char} (white : ∀ c ∈ blanks, isBlank c = true)
    (solid : ∀ c rest, body = c :: rest → isBlank c = false) :
    skipBlanks (blanks ++ body) = body ∧ (blanks ++ body).takeWhile isBlank = blanks :=
  (takeWhile_row white solid).symm

/-- The text behind the blanks does not begin with one. -/
theorem solid_skipBlanks {text rest : List Char} {c : Char} (begins : skipBlanks text = c :: rest) :
    isBlank c = false := by
  have notBlank := List.head?_dropWhile_not isBlank text
  rw [skipBlanks] at begins
  rw [begins] at notBlank
  simpa using notBlank

/-- A blank is a name only up to the closing braces, whatever follows them. -/
theorem blankName?_closes {blanks body name after : List Char}
    (found : blankName? blanks body = some (name, after)) :
    body = '}' :: '}' :: after ∧
      ∀ other, (blankName? blanks ('}' :: '}' :: other)).isSome = true := by
  unfold blankName? at found
  split at found
  · rw [Option.map_eq_some_iff] at found
    obtain ⟨last, isLast, same⟩ := found
    cases same
    refine ⟨rfl, fun other => ?_⟩
    rw [blankName?, isLast]
    rfl
  · exact absurd found (by simp)

theorem Heads.interior {text name after : List Char}
    (found : interior? text = some (name, after)) : Heads interior? text after := by
  have parted : text.takeWhile isBlank ++ skipBlanks text = text :=
    List.takeWhile_append_dropWhile
  have white : ∀ c ∈ text.takeWhile isBlank, isBlank c = true :=
    List.all_eq_true.1 List.all_takeWhile
  rw [interior?, Option.or_eq_some_iff] at found
  rcases found with named | ⟨-, blank⟩
  · -- A name begins behind the blanks, so the same blanks are skipped.
    obtain ⟨source, split, again⟩ := Heads.name named
    have solid : ∀ other c rest, source ++ other = c :: rest → isBlank c = false := by
      intro other c rest begins
      cases source with
      | nil => simpa [name?] using again []
      | cons first others =>
        cases begins
        exact solid_skipBlanks split
    refine ⟨text.takeWhile isBlank ++ source, ?_, fun other => ?_⟩
    · rw [List.append_assoc, ← split, parted]
    · rw [List.append_assoc, interior?, (skipBlanks_append white (solid other)).1,
        Option.isSome_or, again other, Bool.true_or]
  · -- Nothing but blanks: what follows the braces may still bring in a longer name.
    obtain ⟨closed, again⟩ := blankName?_closes blank
    have solid : ∀ other c rest, '}' :: '}' :: other = c :: rest → isBlank c = false := by
      intro other c rest begins
      cases begins
      decide
    refine ⟨text.takeWhile isBlank ++ ['}', '}'], ?_, fun other => ?_⟩
    · rw [List.append_assoc, List.cons_append, List.cons_append, List.nil_append, ← closed, parted]
    · obtain ⟨skipped, taken⟩ := skipBlanks_append white (solid other)
      rw [List.append_assoc, List.cons_append, List.cons_append, List.nil_append, interior?,
        skipped, taken, Option.isSome_or, again other, Bool.or_true]

theorem Heads.placeholder {text name after : List Char}
    (found : placeholder? text = some (name, after)) : Heads placeholder? text after := by
  unfold placeholder? at found
  split at found
  · next body =>
    obtain ⟨source, rfl, again⟩ := Heads.interior found
    exact ⟨'{' :: '{' :: source, rfl, again⟩
  · exact absurd found (by simp)

/-! ## Placeholders within a text -/

/-- A placeholder somewhere in a text is recognised, or one in front of it that overlaps. -/
theorem exists_placeholder_segmentsAfter {text : List Char} (found : (placeholder? text).isSome) :
    ∀ before : List Char, (segmentsAfter 0 (before ++ text)).any Segment.isPlaceholder = true
  | [] => by
    cases text with
    | nil => simp [placeholder?] at found
    | cons c rest =>
      obtain ⟨⟨name, after⟩, here⟩ := Option.isSome_iff_exists.1 found
      rw [List.nil_append, segmentsAfter, here, List.any_cons, Segment.isPlaceholder, Bool.true_or]
  | c :: before => by
    rw [List.cons_append, segmentsAfter]
    cases placeholder? (c :: (before ++ text)) with
    | some parts => rw [List.any_cons, Segment.isPlaceholder, Bool.true_or]
    | none =>
      rw [List.any_cons, exists_placeholder_segmentsAfter found before, Bool.or_true]

/-- The spelling of a segment that is a placeholder is recognised before any other text. -/
theorem placeholder?_source {name : String} {source : List Char} :
    ∀ (text : List Char) (passed : Nat), .placeholder name source ∈ segmentsAfter passed text →
      ∀ other, (placeholder? (source ++ other)).isSome = true
  | [], passed, member => by simp [segmentsAfter] at member
  | c :: rest, passed + 1, member => placeholder?_source rest passed (by
      rwa [segmentsAfter] at member)
  | c :: rest, 0, member => by
    rw [segmentsAfter] at member
    split at member
    · next spelt after found =>
      rcases List.mem_cons.1 member with same | later
      · obtain ⟨spelling, split, again⟩ := Heads.placeholder found
        have taken : source = spelling := by
          injection same with _ same
          rw [same, split, List.length_append, Nat.add_sub_cancel, List.take_left]
        rw [taken]
        exact again
      · exact placeholder?_source rest _ later
    · rcases List.mem_cons.1 member with same | later
      · exact absurd same (by simp)
      · exact placeholder?_source rest 0 later

/-- Without a placeholder every segment is a character of the text. -/
theorem segmentsAfter_of_plain :
    ∀ text : List Char, (segmentsAfter 0 text).any Segment.isPlaceholder = false →
      segmentsAfter 0 text = text.map Segment.plain
  | [], _ => by rw [segmentsAfter, List.map_nil]
  | c :: rest, plain => by
    rw [segmentsAfter] at plain ⊢
    cases found : placeholder? (c :: rest) with
    | some parts => simp [found, Segment.isPlaceholder] at plain
    | none =>
      simp only [found, List.any_cons, Bool.or_eq_false_iff] at plain
      rw [List.map_cons, segmentsAfter_of_plain rest plain.2]

/-! ## Filled texts -/

variable {ν : Type} [Scalar ν]

/-- A text that renders a placeholder in its spelling has a placeholder. -/
theorem hasPlaceholder_of_mem_segments {scope : Params ν} {text name : String}
    {source : List Char} (member : .placeholder name source ∈ segments text.toList)
    (unbound : scope.get? name = none) : hasPlaceholder (fill scope text).1 = true := by
  obtain ⟨before, after, parted⟩ := List.append_of_mem member
  have rendered : (Segment.placeholder name source).render scope = source := by
    simp [Segment.render, unbound]
  have split : (fill scope text).1.toList = before.flatMap (Segment.render scope) ++
      (source ++ after.flatMap (Segment.render scope)) := by
    simp [fill, parted, rendered]
  rw [hasPlaceholder, split, segments]
  exact exists_placeholder_segmentsAfter (placeholder?_source text.toList 0 member _) _

/-- A filled text that has no placeholder was filled without a problem. -/
theorem fill_problems_of_settled {scope : Params ν} {text : String}
    (settled : hasPlaceholder (fill scope text).1 = false) : (fill scope text).2 = [] := by
  rw [fill, List.flatMap_eq_nil_iff]
  intro segment member
  cases segment with
  | plain c => rfl
  | placeholder name source =>
    rw [Segment.problems, OrderedMap.contains]
    cases bound : scope.get? name with
    | some value => rfl
    | none => exact absurd (hasPlaceholder_of_mem_segments member bound) (by simp [settled])

/-- A text without placeholders stays as it is. -/
theorem fill_of_plain {text : String} (scope : Params ν) (plain : hasPlaceholder text = false) :
    (fill scope text).1 = text := by
  have characters : segments text.toList = text.toList.map Segment.plain :=
    segmentsAfter_of_plain text.toList plain
  have kept : (text.toList.map Segment.plain).flatMap (Segment.render scope) = text.toList := by
    rw [List.flatMap_map]
    exact List.flatMap_singleton' _
  rw [fill, characters, kept, String.ofList_toList]

end Template

/-! ## Filled values -/

variable {ν : Type} [Scalar ν]

/-- The value has no placeholder. -/
def Value.isSettled : Value ν → Bool
  | .number _ => true
  | .text words => !Template.hasPlaceholder words

theorem Value.fill_of_settled {value : Value ν} (scope : Params ν)
    (settled : value.isSettled = true) : value.fill scope = (value, []) := by
  cases value with
  | number amount => rfl
  | text words =>
    have plain : Template.hasPlaceholder words = false := by simpa [isSettled] using settled
    rw [fill, plain]
    rfl

/-- Filling a value that has been filled completely gives it again, in every scope, and reports
what the first filling did. -/
theorem Value.fill_fill {value : Value ν} {scope : Params ν} (other : Params ν)
    (settled : (value.fill scope).1.isSettled = true) :
    (value.fill scope).1.fill other = value.fill scope := by
  have complete : (value.fill scope).2 = [] := by
    cases value with
    | number amount => rfl
    | text words =>
      rw [fill] at settled ⊢
      by_cases has : Template.hasPlaceholder words = true
      · simp only [has, if_true] at settled ⊢
        cases whole : Template.wholeValue? scope words with
        | some value => rfl
        | none =>
          simp only [whole] at settled ⊢
          exact Template.fill_problems_of_settled (by simpa [isSettled] using settled)
      · simp only [has, if_false, Bool.false_eq_true]
  rw [fill_of_settled other settled, ← complete]

/-! ## Trimmed texts -/

/-- Neither the first nor the last character of a text is a blank. -/
structure Trimmed (text : List Char) : Prop where
  first : ∀ c ∈ text.head?, isBlank c = false
  last : ∀ c ∈ text.getLast?, isBlank c = false

/-- Blanks in front of a text that does not begin with one are removed, and nothing else. -/
theorem skipBlanks_of_head {blanks text : List Char} (white : ∀ c ∈ blanks, isBlank c = true)
    (solid : ∀ c ∈ text.head?, isBlank c = false) : skipBlanks (blanks ++ text) = text := by
  refine (Template.skipBlanks_append white ?_).1
  rintro c rest rfl
  exact solid c rfl

/-- A text without blanks in front keeps all its characters. -/
theorem skipBlanks_of_solid {text : List Char} (solid : ∀ c ∈ text.head?, isBlank c = false) :
    skipBlanks text = text :=
  skipBlanks_of_head (List.forall_mem_nil _) solid

theorem dropBlanksBehind_eq_nil_iff {text : List Char} :
    dropBlanksBehind text = [] ↔ ∀ c ∈ text, isBlank c = true := by
  rw [dropBlanksBehind, List.reverse_eq_nil_iff, skipBlanks, List.dropWhile_eq_nil_iff]
  simp only [List.mem_reverse]

/-- Behind a text that does not end in a blank, the blanks are removed as if it were not there. -/
theorem dropBlanksBehind_append {text : List Char} (solid : ∀ c ∈ text.getLast?, isBlank c = false)
    (rest : List Char) : dropBlanksBehind (text ++ rest) = text ++ dropBlanksBehind rest := by
  have kept : skipBlanks text.reverse = text.reverse :=
    skipBlanks_of_solid (by rwa [List.head?_reverse])
  have skipped : skipBlanks (rest.reverse ++ text.reverse) =
      skipBlanks rest.reverse ++ text.reverse := by
    rw [skipBlanks, List.dropWhile_append]
    split
    · next nothing =>
      rw [skipBlanks, List.isEmpty_iff.1 nothing, List.nil_append]
      exact kept
    · rfl
  rw [dropBlanksBehind, List.reverse_append, skipped, List.reverse_append, List.reverse_reverse,
    dropBlanksBehind]

theorem dropBlanksBehind_of_getLast {blanks text : List Char}
    (white : ∀ c ∈ blanks, isBlank c = true) (solid : ∀ c ∈ text.getLast?, isBlank c = false) :
    dropBlanksBehind (text ++ blanks) = text := by
  rw [dropBlanksBehind_append solid, dropBlanksBehind_eq_nil_iff.2 white, List.append_nil]

/-- A text between two others is trimmed with them, if neither of them has a blank. -/
theorem Trimmed.between {front behind : List Char} (middle : List Char) (filled : front ≠ [])
    (filledBehind : behind ≠ []) (solid : ∀ c ∈ front, isBlank c = false)
    (solidBehind : ∀ c ∈ behind, isBlank c = false) : Trimmed (front ++ (middle ++ behind)) where
  first := by
    rw [List.head?_append_of_ne_nil _ filled]
    exact fun c first => solid c (List.mem_of_mem_head? first)
  last := by
    rw [← List.append_assoc, List.getLast?_append_of_ne_nil _ filledBehind]
    exact fun c last => solidBehind c (List.mem_of_mem_getLast? last)

/-- Trimming removes the blanks around a trimmed text. -/
theorem Trimmed.trimBlanks {front text behind : List Char} (trimmed : Trimmed text)
    (white : ∀ c ∈ front, isBlank c = true) (whiteBehind : ∀ c ∈ behind, isBlank c = true)
    (filled : text ≠ []) : trimBlanks (front ++ (text ++ behind)) = text := by
  have skipped : skipBlanks (front ++ (text ++ behind)) = text ++ behind := by
    obtain ⟨c, rest, rfl⟩ := List.exists_cons_of_ne_nil filled
    exact skipBlanks_of_head white trimmed.first
  rw [Storyboard.trimBlanks, skipped, dropBlanksBehind_of_getLast whiteBehind trimmed.last]

end Storyboard
