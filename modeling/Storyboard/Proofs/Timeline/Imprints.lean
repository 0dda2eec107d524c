import Storyboard.Proofs.Timeline.Strand
import Storyboard.Proofs.Timeline.WellTimed

/-!
# What keyframes were given

An imprint is what the walk puts into the keyframe under a cursor: the styles that it writes there,
or the mark of a step without payload. In a log of imprints the last one that reaches a property
at a place decides what the keyframe there should have (`imprinted`).

A strand keeps its imprints (`Timeline.Strand.Keeps`) when there is a keyframe for each of them,
which has the value that was written last, unless a mark came later. Moving the cursor, to and fro,
keeps the imprints, and so does whatever changes the keyframe under the cursor in keeping with the
last imprint there (`Timeline.Strand.Keeps.edit`).
-/

set_option autoImplicit false

namespace Storyboard

/-! ## Imprints -/

/-- What is put into the keyframe under a cursor: the styles that are written, or the mark of a step
without payload. -/
structure Imprint (ν : Type) where
  timeline : Nat
  /-- The absolute time. -/
  time : ν
  /-- The local time. -/
  cursor : ν
  styles : Option (Styles ν)

namespace Imprint

variable {ν : Type}

/-- The value that is written for a property. -/
def value? (property : String) (imprint : Imprint ν) : Option (Value ν) :=
  imprint.styles.bind fun styles => styles.get? property

/-- The property is written or marked; a mark may concern any property. -/
def touches (property : String) (imprint : Imprint ν) : Bool :=
  match imprint.styles with
  | some styles => styles.contains property
  | none => true

/-- The property is written or marked on a timeline at a local time. -/
def reaches (property : String) (id : Nat) (cursor : Rat) (imprint : Imprint Rat) : Bool :=
  imprint.timeline == id && imprint.cursor == cursor && imprint.touches property

theorem reaches_iff {property : String} {id : Nat} {cursor : Rat} {imprint : Imprint Rat} :
    imprint.reaches property id cursor = true ↔
      imprint.timeline = id ∧ imprint.cursor = cursor ∧ imprint.touches property = true := by
  simp [reaches, and_assoc]

/-- What is written is touched. -/
theorem touches_of_value? {property : String} {imprint : Imprint ν} {value : Value ν}
    (written : imprint.value? property = some value) : imprint.touches property = true := by
  obtain ⟨styles, present, found⟩ := Option.bind_eq_some_iff.1 written
  rw [touches, present]
  exact Option.isSome_iff_exists.2 ⟨value, found⟩

end Imprint

/-- The value that a keyframe was given last for a property. There is none if a mark came later. -/
def imprinted (log : List (Imprint Rat)) (property : String) (id : Nat) (cursor : Rat) :
    Option (Value Rat) :=
  (log.filter (Imprint.reaches property id cursor)).getLast?.bind (Imprint.value? property)

section Logs

variable {log more : List (Imprint Rat)} {property : String} {id : Nat} {cursor : Rat}

theorem imprinted_append_of_missed
    (missed : ∀ imprint ∈ more, imprint.reaches property id cursor = false) :
    imprinted (log ++ more) property id cursor = imprinted log property id cursor := by
  have none : more.filter (Imprint.reaches property id cursor) = [] :=
    List.filter_eq_nil_iff.2 fun imprint member => by rw [missed imprint member]; decide
  rw [imprinted, List.filter_append, none, List.append_nil, imprinted]

/-- Styles that are written count before what was put in earlier. -/
theorem imprinted_write (log : List (Imprint Rat)) (property : String) (id : Nat)
    (time cursor : Rat) (styles : Styles Rat) :
    imprinted (log ++ [⟨id, time, cursor, some styles⟩]) property id cursor =
      (styles.get? property).or (imprinted log property id cursor) := by
  cases written : styles.get? property with
  | some value =>
    have reached : Imprint.reaches property id cursor ⟨id, time, cursor, some styles⟩ = true :=
      Imprint.reaches_iff.2 ⟨rfl, rfl, Imprint.touches_of_value? written⟩
    rw [imprinted, List.filter_append, List.filter_singleton, reached, List.getLast?_append]
    exact written
  | none =>
    have untouched : Imprint.touches property (⟨id, time, cursor, some styles⟩ : Imprint Rat) =
        false := congrArg Option.isSome written
    rw [imprinted_append_of_missed, Option.none_or]
    intro imprint member
    rw [List.mem_singleton.1 member, Imprint.reaches, untouched, Bool.and_false]

/-- Behind a mark nothing counts. -/
theorem imprinted_mark (log : List (Imprint Rat)) (property : String) (id : Nat)
    (time cursor : Rat) :
    imprinted (log ++ [⟨id, time, cursor, none⟩]) property id cursor = none := by
  have reached : Imprint.reaches property id cursor ⟨id, time, cursor, none⟩ = true :=
    Imprint.reaches_iff.2 ⟨rfl, rfl, rfl⟩
  rw [imprinted, List.filter_append, List.filter_singleton, reached, List.getLast?_append]
  rfl

/-- The imprint that gave the value. -/
theorem exists_of_imprinted {value : Value Rat}
    (given : imprinted log property id cursor = some value) :
    ∃ imprint ∈ log, imprint.timeline = id ∧ imprint.cursor = cursor := by
  obtain ⟨imprint, last, _⟩ := Option.bind_eq_some_iff.1 given
  obtain ⟨member, reached⟩ := List.mem_filter.1 (List.mem_of_getLast? last)
  obtain ⟨there, stands, _⟩ := Imprint.reaches_iff.1 reached
  exact ⟨imprint, member, there, stands⟩

end Logs

theorem Timeline.standing_strand {timeline : Timeline Rat} (timed : timeline.skeleton.WellTimed)
    (property : String) : (timeline.strand property).Standing where
  distinct := by
    rw [times_strand]
    exact timed.distinct
  underCursor := by
    rw [times_strand]
    exact timed.underCursor

namespace Timeline.Strand

/-- What is put in at the cursor. -/
def imprint {ν : Type} [Scalar ν] (strand : Strand ν) (id : Nat) (styles : Option (Styles ν)) :
    Imprint ν :=
  ⟨id, strand.now, strand.cursor, styles⟩

/-! ## Strands that keep their imprints -/

/-- Every imprint has its keyframe, and the keyframes have the values that they were given last. -/
structure Keeps (log : List (Imprint Rat)) (property : String) (id : Nat) (strand : Strand Rat) :
    Prop where
  opened : ∀ imprint ∈ log, imprint.timeline = id →
    imprint.time = strand.start + imprint.cursor ∧ imprint.cursor ∈ strand.times
  frames : ∀ frame ∈ strand.frames, ∀ value,
    imprinted log property id frame.1 = some value → frame.2 = some value

namespace Keeps

variable {log made : List (Imprint Rat)} {property : String} {id : Nat} {strand : Strand Rat}

theorem of_unopened (unopened : ∀ imprint ∈ log, imprint.timeline ≠ id) (strand : Strand Rat) :
    strand.Keeps log property id where
  opened imprint member there := absurd there (unopened imprint member)
  frames frame _ value given := by
    obtain ⟨imprint, member, there, _⟩ := exists_of_imprinted given
    exact absurd there (unopened imprint member)

/-- What is put into other timelines does not matter. -/
theorem append (keeps : strand.Keeps log property id)
    (foreign : ∀ imprint ∈ made, imprint.timeline ≠ id) :
    strand.Keeps (log ++ made) property id where
  opened := by
    intro imprint member there
    rcases List.mem_append.1 member with earlier | later
    · exact keeps.opened imprint earlier there
    · exact absurd there (foreign imprint later)
  frames := by
    intro frame member value given
    refine keeps.frames frame member value ?_
    rwa [imprinted_append_of_missed] at given
    intro imprint later
    rw [Imprint.reaches, beq_false_of_ne (foreign imprint later), Bool.false_and, Bool.false_and]

/-- What counts as written, inherited or backfill does not matter. -/
theorem of_frames {other : Strand Rat} (keeps : strand.Keeps log property id)
    (start : other.start = strand.start) (frames : other.frames = strand.frames) :
    other.Keeps log property id where
  opened imprint member there := by
    rw [times, frames, start]
    exact keeps.opened imprint member there
  frames frame member := keeps.frames frame (frames ▸ member)

theorem of_shown {other : Strand Rat} (keeps : strand.Keeps log property id)
    (same : other.shown = strand.shown) : other.Keeps log property id :=
  keeps.of_frames (congrArg Strand.start same :) (congrArg Strand.frames same :)

/-- Moving the cursor, forth or back, opens a keyframe that was given nothing yet. -/
theorem seek (keeps : strand.Keeps log property id) (time : Rat) :
    (strand.seek time).Keeps log property id := by
  unfold Strand.seek
  split
  · exact keeps.of_frames rfl rfl
  · next absent =>
    refine ⟨fun imprint member there => ?_, fun frame member value given => ?_⟩
    · obtain ⟨timed, standing⟩ := keeps.opened imprint member there
      refine ⟨timed, ?_⟩
      rw [times, List.map_append]
      exact List.mem_append_left _ standing
    · rcases List.mem_append.1 member with earlier | last
      · exact keeps.frames frame earlier value given
      · rw [List.mem_singleton.1 last] at given
        obtain ⟨imprint, member, there, stands⟩ := exists_of_imprinted given
        obtain ⟨standing, opened, same⟩ := List.mem_map.1 (keeps.opened imprint member there).2
        have unequal := List.findIdx?_eq_none_iff.1 absent standing opened
        simp [same.trans stands] at unequal

/-- Changing the keyframe under the cursor keeps the imprints if it then has what it was given
last. -/
theorem edit (keeps : strand.Keeps log property id) (standing : strand.Standing)
    (here : ∀ imprint ∈ made, ∃ styles, imprint = strand.imprint id styles)
    {change : Option (Value Rat) → Option (Value Rat)}
    (filled : ∀ own value,
      (∀ before, imprinted log property id strand.cursor = some before → own = some before) →
        imprinted (log ++ made) property id strand.cursor = some value →
          change own = some value) :
    (strand.edit change).Keeps (log ++ made) property id where
  opened := by
    intro imprint member there
    rw [times_edit]
    rcases List.mem_append.1 member with earlier | later
    · exact keeps.opened imprint earlier there
    · obtain ⟨styles, rfl⟩ := here imprint later
      exact ⟨rfl, List.mem_of_getElem? standing.underCursor⟩
  frames := by
    intro frame member value given
    obtain ⟨index, found⟩ := List.mem_iff_getElem?.1 member
    rw [getElem?_frames_edit] at found
    split at found
    · next current =>
      obtain ⟨before, placed, rfl⟩ := Option.map_eq_some_iff.1 found
      have stands := (standing.time_eq_cursor_iff placed).2 current
      refine filled before.2 value (fun earlier known => ?_) (stands ▸ given)
      exact keeps.frames before (List.mem_of_getElem? placed) earlier (stands ▸ known)
    · next apart =>
      have elsewhere : frame.1 ≠ strand.cursor :=
        fun same => apart ((standing.time_eq_cursor_iff found).1 same)
      refine keeps.frames frame (List.mem_of_getElem? found) value ?_
      rwa [imprinted_append_of_missed] at given
      intro imprint later
      obtain ⟨styles, rfl⟩ := here imprint later
      have missed : ((strand.imprint id styles).cursor == frame.1) = false :=
        beq_false_of_ne (Ne.symm elsewhere)
      rw [Imprint.reaches, missed, Bool.and_false, Bool.false_and]

/-- What was written last is carried along. -/
theorem snapshot (keeps : strand.Keeps log property id) (standing : strand.Standing)
    (recent : ∀ value, imprinted log property id strand.cursor = some value →
      strand.written = some value) : strand.snapshot.Keeps log property id := by
  have nothing : ∀ imprint ∈ ([] : List (Imprint Rat)), ∃ styles,
      imprint = strand.imprint id styles := fun imprint member => absurd member List.not_mem_nil
  rw [← List.append_nil log]
  refine keeps.edit standing nothing fun own value _ given => ?_
  rw [List.append_nil] at given
  rw [recent value given, Option.some_or]

/-- Styles are written at the cursor, and what else was written is carried along. -/
theorem write (keeps : strand.Keeps log property id) (standing : strand.Standing)
    (styles : Styles Rat) (known : Option (Value Rat)) :
    (match styles.get? property with
      | some value => strand.write value known
      | none => strand.carry).Keeps (log ++ [strand.imprint id (some styles)]) property id := by
  have put : ∀ imprint ∈ [strand.imprint id (some styles)], ∃ given,
      imprint = strand.imprint id given := fun imprint member => ⟨_, List.mem_singleton.1 member⟩
  have counts : imprinted (log ++ [strand.imprint id (some styles)]) property id strand.cursor =
      (styles.get? property).or (imprinted log property id strand.cursor) :=
    imprinted_write _ _ _ _ _ _
  cases written : styles.get? property with
  | some value =>
    have edited : (strand.edit fun _ => some value).Keeps
        (log ++ [strand.imprint id (some styles)]) property id := by
      refine keeps.edit standing put fun own last _ after => ?_
      rwa [counts, written, Option.some_or] at after
    refine edited.of_frames (strand.start_capture known) ?_
    simp only [Strand.write, Strand.edit, frames_capture, current_capture]
  | none =>
    refine keeps.edit standing put fun own last before after => ?_
    rw [counts, written, Option.none_or] at after
    rw [before last after, Option.some_or]

/-- Where the keyframe was given nothing else, it may stay as it is. -/
theorem stay (keeps : strand.Keeps log property id) (standing : strand.Standing)
    {styles : Option (Styles Rat)}
    (known : ∀ value, imprinted (log ++ [strand.imprint id styles]) property id strand.cursor =
      some value → imprinted log property id strand.cursor = some value) :
    strand.Keeps (log ++ [strand.imprint id styles]) property id := by
  have unchanged : strand.frames.modify strand.current (fun frame => (frame.1, frame.2)) =
      strand.frames := List.modify_id _ _
  have edited : (strand.edit fun own => own).Keeps (log ++ [strand.imprint id styles]) property
      id := by
    refine keeps.edit standing (fun imprint member => ⟨styles, List.mem_singleton.1 member⟩) ?_
    exact fun own value before after => before value (known value after)
  exact edited.of_frames rfl unchanged.symm

/-- Behind a mark nothing needs to be shown. -/
theorem emptyStep (keeps : strand.Keeps log property id) (standing : strand.Standing)
    (known : Option (Value Rat)) :
    (strand.emptyStep known).Keeps (log ++ [strand.imprint id none]) property id := by
  have marked : imprinted (log ++ [strand.imprint id none]) property id strand.cursor = none :=
    imprinted_mark _ _ _ _ _
  cases known with
  | none => exact keeps.stay standing fun value given => nomatch marked.symm.trans given
  | some known =>
    have edited : (strand.edit fun _ => some Value.automatic).Keeps
        (log ++ [strand.imprint id none]) property id := by
      refine keeps.edit standing (fun imprint member => ⟨none, List.mem_singleton.1 member⟩) ?_
      exact fun _ last _ after => nomatch marked.symm.trans after
    refine edited.of_frames (strand.start_capture _) ?_
    simp only [Strand.emptyStep, Strand.blankOut, Strand.edit, frames_capture, current_capture]

end Keeps

end Timeline.Strand

end Storyboard
