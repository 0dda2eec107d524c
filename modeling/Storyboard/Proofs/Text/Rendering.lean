import Storyboard.Proofs.Text.Templates

/-!
# Rendering a template

A template is written piece by piece: words without braces, and gaps `{{ name }}` with any blanks
around their names (`Template.Piece`). Reading the text finds the very pieces it was written from,
whatever stands next to what (`Template.segments_flatMap`): the closing braces of a gap are the
first ones behind its name, and outside of gaps there is no brace.

So the rendered text is the words as they are, the displays of the bound values and the spellings
of the unbound gaps, and each unbound gap is reported once. The values are not among the pieces,
so braces in them are never read. A text value is rendered in the same way, unless one bound gap is
all it has between blanks: then it becomes the value itself (`Template.wholeValue?_written`).
-/

set_option autoImplicit false

namespace Storyboard

namespace Template

/-! ## Pieces of a template -/

/-- A gap of a template: the letters of its name, and the blanks around them. -/
structure Gap where
  before : List Char
  letters : List Char
  behind : List Char
  white : ∀ c ∈ before, isBlank c = true
  whiteBehind : ∀ c ∈ behind, isBlank c = true
  filled : letters ≠ []
  plain : ∀ c ∈ letters, c ≠ '{' ∧ c ≠ '}' ∧ c ≠ '\n'
  trimmed : Trimmed letters

namespace Gap

/-- The name that a value is looked up by. -/
def name (gap : Gap) : String :=
  String.ofList gap.letters

/-- How a gap is written. -/
def text (gap : Gap) : List Char :=
  ['{', '{'] ++ (gap.before ++ (gap.letters ++ (gap.behind ++ ['}', '}'])))

end Gap

/-- A piece of a template: words without braces, or a gap. -/
inductive Piece where
  | words (text : List Char) (plain : ∀ c ∈ text, c ≠ '{' ∧ c ≠ '}')
  | gap (gap : Gap)

/-- How a piece is written. -/
def Piece.text : Piece → List Char
  | words text _ => text
  | gap place => place.text

/-- The template that pieces make when they are written one after the other. -/
def written (pieces : List Piece) : String :=
  String.ofList (pieces.flatMap Piece.text)

/-- The piece is a gap, or has a character that is no blank. -/
def Piece.isSolid : Piece → Bool
  | words text _ => !text.all isBlank
  | gap _ => true

/-- Beside the gap there are blanks only. -/
def Gap.IsAlone (gap : Gap) (pieces : List Piece) : Prop :=
  pieces.filter Piece.isSolid = [.gap gap]

section

variable {ν : Type} [Scalar ν]

/-- What a piece stands for in a scope. -/
def Piece.rendered (scope : Params ν) : Piece → List Char
  | words text _ => text
  | gap place =>
    match scope.get? place.name with
    | some value => value.display.toList
    | none => place.text

/-- The problem with a piece in a scope: a gap whose name is not bound. -/
def Piece.problem? (scope : Params ν) : Piece → Option (Problem ν)
  | words _ _ => none
  | gap place => if scope.contains place.name then none else some (.missingParam place.name)

/-- What the pieces stand for in a scope, one after the other. -/
def rendered (scope : Params ν) (pieces : List Piece) : String :=
  String.ofList (pieces.flatMap (Piece.rendered scope))

/-- The problems with the pieces in a scope, in order. -/
def missing (scope : Params ν) (pieces : List Piece) : List (Problem ν) :=
  pieces.filterMap (Piece.problem? scope)

end

/-! ## Gaps are read -/

/-- The first closing braces are found behind a text that has none. -/
theorem untilClosing?_of_plain {inner : List Char} (plain : ∀ c ∈ inner, c ≠ '}')
    (rest : List Char) :
    untilClosing? (inner ++ '}' :: '}' :: rest) = some (inner, rest) := by
  induction inner with
  | nil => rfl
  | cons c others ih =>
    obtain ⟨first, later⟩ := List.forall_mem_cons.1 plain
    rw [List.cons_append, untilClosing?, ih later]
    · rfl
    · rintro after rfl
      exact absurd rfl first

/-- No brace is a blank. -/
theorem ne_brace_of_isBlank {c : Char} (blank : isBlank c = true) : c ≠ '{' ∧ c ≠ '}' := by
  constructor <;> (rintro rfl; exact absurd blank (by decide))

namespace Gap

variable (gap : Gap)

/-- The name is read up to the blanks behind it, whatever follows the braces. -/
theorem name?_letters (rest : List Char) :
    name? (gap.letters ++ (gap.behind ++ '}' :: '}' :: rest)) = some (gap.letters, rest) := by
  have plain := gap.plain
  have last := gap.trimmed.last
  obtain ⟨c, others, shape⟩ := List.exists_cons_of_ne_nil gap.filled
  rw [shape] at plain last ⊢
  have noBrace : ∀ d ∈ others ++ gap.behind, d ≠ '}' := by
    intro d member
    rcases List.mem_append.1 member with inName | blank
    · exact (plain d (List.mem_cons_of_mem _ inName)).2.1
    · exact (ne_brace_of_isBlank (gap.whiteBehind d blank)).2
  have kept : dropBlanksBehind (others ++ gap.behind) = others := by
    refine dropBlanksBehind_of_getLast gap.whiteBehind fun d isLast => last d ?_
    rw [Option.mem_def] at isLast ⊢
    rw [List.getLast?_cons, isLast, Option.getD_some]
  have line : (c :: others).contains '\n' = false := by
    rw [List.contains_eq_mem, decide_eq_false_iff_not]
    exact fun member => (plain _ member).2.2 rfl
  rw [List.cons_append, name?, ← List.append_assoc, untilClosing?_of_plain noBrace]
  simp only [kept, line, Bool.false_eq_true, if_false]

/-- A gap is recognised at the start of a text, whatever follows it. -/
theorem placeholder?_text (rest : List Char) :
    placeholder? (gap.text ++ rest) = some (gap.letters, rest) := by
  have skipped : skipBlanks (gap.before ++ (gap.letters ++ (gap.behind ++ '}' :: '}' :: rest))) =
      gap.letters ++ (gap.behind ++ '}' :: '}' :: rest) := by
    refine skipBlanks_of_head gap.white ?_
    rw [List.head?_append_of_ne_nil _ gap.filled]
    exact gap.trimmed.first
  simp only [text, List.cons_append, List.nil_append, List.append_assoc, placeholder?, interior?,
    skipped, gap.name?_letters rest, Option.some_or]

end Gap

/-- The characters that belong to a placeholder are passed over. -/
theorem segmentsAfter_eq_drop : ∀ (passed : Nat) (text : List Char),
    segmentsAfter passed text = segments (text.drop passed)
  | 0, _ => rfl
  | _ + 1, [] => rfl
  | passed + 1, _ :: rest => by rw [segmentsAfter, segmentsAfter_eq_drop passed rest, List.drop]

/-- The segments that a piece is read as. -/
def Piece.segments : Piece → List Segment
  | words text _ => text.map .plain
  | gap place => [.placeholder place.name place.text]

/-- A placeholder at the start of a text is the first segment. -/
theorem segments_of_placeholder? {source name rest : List Char} (filled : source ≠ [])
    (found : placeholder? (source ++ rest) = some (name, rest)) :
    segments (source ++ rest) = .placeholder (String.ofList name) source :: segments rest := by
  obtain ⟨c, others, rfl⟩ := List.exists_cons_of_ne_nil filled
  have length : (c :: (others ++ rest)).length - rest.length = others.length + 1 := by
    simp only [List.length_cons, List.length_append]
    omega
  have taken : (c :: (others ++ rest)).take (others.length + 1) = c :: others := by
    rw [List.take_succ_cons, List.take_left]
  rw [List.cons_append] at found ⊢
  rw [segments, segmentsAfter, found]
  simp only [length, taken, Nat.add_sub_cancel, segmentsAfter_eq_drop, List.drop_left]

/-- A character that is no brace stands for itself. -/
theorem segments_cons {c : Char} (plain : c ≠ '{') (rest : List Char) :
    segments (c :: rest) = .plain c :: segments rest := by
  have none : placeholder? (c :: rest) = none := by
    rw [placeholder?]
    intro body begins
    exact plain (List.cons.inj begins).1
  rw [segments, segmentsAfter, none]
  rfl

/-- A piece is read as its segments, whatever follows it. -/
theorem segments_append (piece : Piece) (rest : List Char) :
    segments (piece.text ++ rest) = piece.segments ++ segments rest := by
  cases piece with
  | gap place =>
    exact segments_of_placeholder? (List.cons_ne_nil _ _) (place.placeholder?_text rest)
  | words text plain =>
    rw [Piece.text, Piece.segments]
    induction text with
    | nil => rfl
    | cons c others ih =>
      obtain ⟨first, later⟩ := List.forall_mem_cons.1 plain
      rw [List.cons_append, segments_cons first.1, ih later, List.map_cons, List.cons_append]

/-- Reading a template finds the pieces that it was written from. -/
theorem segments_flatMap (pieces : List Piece) :
    segments (pieces.flatMap Piece.text) = pieces.flatMap Piece.segments := by
  induction pieces with
  | nil => rfl
  | cons piece rest ih => rw [List.flatMap_cons, segments_append, ih, List.flatMap_cons]

/-! ## Whole values -/

/-- A gap begins and ends with a brace. -/
theorem Gap.trimmed_text (gap : Gap) : Trimmed gap.text := by
  have between : Trimmed
      (['{', '{'] ++ ((gap.before ++ (gap.letters ++ gap.behind)) ++ ['}', '}'])) :=
    Trimmed.between _ (List.cons_ne_nil _ _) (List.cons_ne_nil _ _) (by simp [isBlank])
      (by simp [isBlank])
  simpa only [text, List.append_assoc] using between

theorem Gap.text_ne_nil (gap : Gap) : gap.text ≠ [] :=
  List.cons_ne_nil _ _

theorem Piece.isSolid_eq_false_iff (piece : Piece) :
    piece.isSolid = false ↔ ∀ c ∈ piece.text, isBlank c = true := by
  cases piece with
  | words text plain => simp [isSolid, Piece.text]
  | gap place =>
    refine iff_of_false (by simp [isSolid]) fun blanks => ?_
    exact absurd (blanks '{' List.mem_cons_self) (by decide)

/-- Pieces are written as blanks when none of them is solid. -/
theorem filter_isSolid_eq_nil_iff (pieces : List Piece) :
    pieces.filter Piece.isSolid = [] ↔
      ∀ c ∈ pieces.flatMap Piece.text, isBlank c = true := by
  simp only [List.filter_eq_nil_iff, Bool.not_eq_true, Piece.isSolid_eq_false_iff, List.mem_flatMap]
  constructor
  · rintro blanks c ⟨piece, member, inText⟩
    exact blanks piece member c inText
  · intro blanks piece member c inText
    exact blanks c ⟨piece, member, inText⟩

variable {ν : Type}

theorem segments_eq_nil_iff (text : List Char) : segments text = [] ↔ text = [] := by
  cases text with
  | nil => exact iff_of_true rfl rfl
  | cons c rest =>
    refine iff_of_false ?_ (List.cons_ne_nil _ _)
    rw [segments, segmentsAfter]
    split <;> exact List.cons_ne_nil _ _

/-- A text is not taken over whole when it begins, behind blanks, with a character that is no
brace. -/
theorem wholeValue?_of_plain (scope : Params ν) {text rest : List Char} {c : Char}
    (begins : skipBlanks text = c :: rest) (plain : c ≠ '{') :
    wholeValue? scope (String.ofList text) = none := by
  have kept : dropBlanksBehind ([c] ++ rest) = [c] ++ dropBlanksBehind rest :=
    dropBlanksBehind_append (by simpa using solid_skipBlanks begins) rest
  rw [wholeValue?, String.toList_ofList, trimBlanks, begins, ← List.singleton_append, kept,
    List.singleton_append, segments_cons plain]

/-- A text that begins with a gap is taken over whole when blanks only follow. -/
theorem wholeValue?_of_gap (scope : Params ν) (gap : Gap) (rest : List Char) :
    wholeValue? scope (String.ofList (gap.text ++ rest)) =
      if dropBlanksBehind rest = [] then scope.get? gap.name else none := by
  have solid : ∀ c ∈ (gap.text ++ rest).head?, isBlank c = false := by
    rw [List.head?_append_of_ne_nil _ gap.text_ne_nil]
    exact gap.trimmed_text.first
  rw [wholeValue?, String.toList_ofList, trimBlanks, skipBlanks_of_solid solid,
    dropBlanksBehind_append gap.trimmed_text.last,
    segments_of_placeholder? gap.text_ne_nil (gap.placeholder?_text _)]
  split_ifs with nothing
  · rw [nothing]
    rfl
  · obtain ⟨first, others, shape⟩ :=
      List.exists_cons_of_ne_nil (mt (segments_eq_nil_iff _).1 nothing)
    rw [shape]

/-- A template is taken over whole when it has nothing but one gap between blanks. -/
theorem wholeValue?_written (scope : Params ν) (pieces : List Piece) :
    wholeValue? scope (written pieces) =
      match pieces.filter Piece.isSolid with
      | [.gap place] => scope.get? place.name
      | _ => none := by
  induction pieces with
  | nil => rfl
  | cons piece rest ih =>
    rw [written, List.flatMap_cons]
    cases solid : piece.isSolid with
    | false =>
      have skipped : trimBlanks (piece.text ++ rest.flatMap Piece.text) =
          trimBlanks (rest.flatMap Piece.text) := by
        rw [trimBlanks, skipBlanks,
          List.dropWhile_append_of_pos ((piece.isSolid_eq_false_iff).1 solid)]
        rfl
      rw [List.filter_cons_of_neg (by simp [solid]), ← ih, wholeValue?, wholeValue?, written,
        String.toList_ofList, String.toList_ofList, skipped]
    | true =>
      rw [List.filter_cons_of_pos solid]
      cases piece with
      | words text plain =>
        obtain ⟨c, others, begins⟩ : ∃ c others, skipBlanks text = c :: others := by
          apply List.exists_cons_of_ne_nil
          rw [skipBlanks, Ne, List.dropWhile_eq_nil_iff]
          simpa [Piece.isSolid] using solid
        have member : c ∈ text := by
          refine (List.dropWhile_sublist isBlank).mem (?_ : c ∈ skipBlanks text)
          rw [begins]
          exact List.mem_cons_self
        have beginsAll : skipBlanks (text ++ rest.flatMap Piece.text) =
            c :: (others ++ rest.flatMap Piece.text) := by
          rw [skipBlanks] at begins
          simp [skipBlanks, List.dropWhile_append, begins]
        rw [Piece.text, wholeValue?_of_plain scope beginsAll (plain c member).1]
      | gap place =>
        rw [Piece.text, wholeValue?_of_gap]
        cases shape : rest.filter Piece.isSolid with
        | nil =>
          exact if_pos (dropBlanksBehind_eq_nil_iff.2 ((filter_isSolid_eq_nil_iff rest).1 shape))
        | cons next others =>
          refine if_neg fun nothing => ?_
          have blanks := (filter_isSolid_eq_nil_iff rest).2 (dropBlanksBehind_eq_nil_iff.1 nothing)
          exact List.cons_ne_nil _ _ (shape.symm.trans blanks)

variable [Scalar ν]

/-! ## Pieces are rendered -/

/-- Rendering a template renders its pieces, and reports each gap that is not bound. -/
theorem fill_written (scope : Params ν) (pieces : List Piece) :
    fill scope (written pieces) = (rendered scope pieces, missing scope pieces) := by
  have rendering (piece : Piece) :
      piece.segments.flatMap (Segment.render scope) = piece.rendered scope := by
    cases piece with
    | words text plain =>
      rw [Piece.segments, List.flatMap_map]
      exact List.flatMap_singleton' text
    | gap place =>
      rw [Piece.segments, List.flatMap_singleton]
      rfl
  have problems (piece : Piece) :
      piece.segments.flatMap (Segment.problems scope) = (piece.problem? scope).toList := by
    cases piece with
    | words text plain => simp [Piece.segments, Piece.problem?, Segment.problems]
    | gap place =>
      simp only [Piece.segments, Piece.problem?, Segment.problems, List.flatMap_cons,
        List.flatMap_nil, List.append_nil]
      split <;> rfl
  simp only [fill, written, String.toList_ofList, segments_flatMap, List.flatMap_assoc, rendering,
    problems, rendered, missing, List.filterMap_eq_flatMap_toList]

/-- A template has a placeholder when one of its pieces is a gap. -/
theorem hasPlaceholder_written (pieces : List Piece) :
    hasPlaceholder (written pieces) = true ↔ ∃ gap, .gap gap ∈ pieces := by
  rw [hasPlaceholder, written, String.toList_ofList, segments_flatMap]
  simp only [List.any_eq_true, List.mem_flatMap]
  constructor
  · rintro ⟨segment, ⟨piece, member, inPiece⟩, isGap⟩
    cases piece with
    | words text plain =>
      obtain ⟨c, -, rfl⟩ := List.mem_map.1 inPiece
      exact absurd isGap Bool.false_ne_true
    | gap place => exact ⟨place, member⟩
  · rintro ⟨gap, member⟩
    exact ⟨_, ⟨.gap gap, member, List.mem_singleton_self _⟩, rfl⟩

/-- A template as a value becomes the value that it is taken over whole as, or it is rendered. -/
theorem fill_text_written (scope : Params ν) (pieces : List Piece) :
    (Value.text (written pieces)).fill scope =
      match wholeValue? scope (written pieces) with
      | some value => (value, [])
      | none => (.text (rendered scope pieces), missing scope pieces) := by
  rw [Value.fill, fill_written]
  split_ifs with has
  · rfl
  · have plain : hasPlaceholder (written pieces) = false := Bool.eq_false_iff.2 has
    have whole : wholeValue? scope (written pieces) = none := by
      rw [wholeValue?_written]
      split
      · next place alone =>
        refine absurd ((hasPlaceholder_written pieces).2 ⟨place, ?_⟩) has
        exact List.mem_of_mem_filter (alone ▸ List.mem_singleton_self _)
      · rfl
    have same : (fill scope (written pieces)).1 = written pieces := fill_of_plain scope plain
    have silent : (fill scope (written pieces)).2 = [] :=
      fill_problems_of_settled (by rw [same, plain])
    simp only [fill_written] at same silent
    simp only [whole, same, silent]

/-- **Templates are rendered piece by piece.** The words stay as they are, each bound gap shows its
value, which is never read again, and each unbound gap stays as it is written and is reported once,
in order. A template as a value becomes the very value of a gap that is bound and alone; otherwise
it becomes the rendered text, with the same problems. Numbers and texts without placeholders stay
as they are, and a template is one of these when no piece of it is a gap. -/
theorem fill_of_written (scope : Params ν) (pieces : List Piece) :
    fill scope (written pieces) = (rendered scope pieces, missing scope pieces) ∧
    (∀ (gap : Gap) (value : Value ν), gap.IsAlone pieces → scope.get? gap.name = some value →
      (Value.text (written pieces)).fill scope = (value, [])) ∧
    ((∀ gap : Gap, gap.IsAlone pieces → scope.get? gap.name = none) →
      (Value.text (written pieces)).fill scope =
        (.text (rendered scope pieces), missing scope pieces)) ∧
    (∀ value : Value ν, value.isSettled = true → value.fill scope = (value, [])) ∧
    ((Value.text (written pieces) : Value ν).isSettled = true ↔ ∀ gap, .gap gap ∉ pieces) := by
  refine ⟨fill_written scope pieces, fun gap value alone bound => ?_, fun unbound => ?_,
    fun value settled => Value.fill_of_settled scope settled, ?_⟩
  · have whole : wholeValue? scope (written pieces) = some value := by
      rw [wholeValue?_written, alone]
      exact bound
    rw [fill_text_written, whole]
  · have whole : wholeValue? scope (written pieces) = none := by
      rw [wholeValue?_written]
      split
      · next place alone => exact unbound place alone
      · rfl
    rw [fill_text_written, whole]
  · rw [Value.isSettled, Bool.not_eq_true', ← Bool.not_eq_true, hasPlaceholder_written, not_exists]

/-- The gap of a name, with the blanks around it. -/
def endGap : Gap :=
  ⟨[' '], "end".toList, ['\n'], by simp [isBlank], by simp [isBlank], by simp, by simp,
    by simp [isBlank], by simp [isBlank]⟩

/-- A gap without blanks. -/
def startGap : Gap :=
  ⟨[], "start".toList, [], by simp, by simp, by simp, by simp, by simp [isBlank],
    by simp [isBlank]⟩

/-- A value that looks like a gap. -/
def nestedScope : Params Binary64 :=
  .ofList [("end", .text "\x7b\x7bstart\x7d\x7d")]

/-- A value that looks like a gap is shown beside a gap that is not bound, and it is taken over
whole when its gap is alone. -/
theorem fill_of_nested :
    fill nestedScope "to \x7b\x7b end\n\x7d\x7d\x7b\x7bstart\x7d\x7d" =
        ("to \x7b\x7bstart\x7d\x7d\x7b\x7bstart\x7d\x7d", [.missingParam "start"]) ∧
      endGap.IsAlone [.words [' '] (by simp), .gap endGap] ∧
      (Value.text " \x7b\x7b end\n\x7d\x7d").fill nestedScope =
        (.text "\x7b\x7bstart\x7d\x7d", []) := by
  have mixed := fill_of_written nestedScope
    [.words "to ".toList (by simp), .gap endGap, .gap startGap]
  have single := fill_of_written nestedScope [.words [' '] (by simp), .gap endGap]
  exact ⟨mixed.1, rfl, single.2.1 endGap _ rfl rfl⟩

end Template

end Storyboard
