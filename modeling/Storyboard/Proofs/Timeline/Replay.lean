import Mathlib.Data.List.TakeWhile
import Storyboard.Proofs.Timeline.Strand
import Storyboard.Proofs.Timeline.WellTimed

/-!
# Replaying the writes of a timeline

What a timeline should show of a property at some time is told by a ledger alone: the value of the
last own write up to that time, and before the first one the value that the property had then,
which is what the timeline inherited, else what all timelines shared at that moment, else the
computed style (`replayed`).

A strand replays its writes (`Timeline.Strand.Replays`) when each keyframe has, of its own, the
last value written up to its time, and the backfill is the value from before the first write. While
the walk is on the timeline its cursor stands at the last keyframe, behind all writes
(`Timeline.Strand.Current`). Right after the cursor has moved, the keyframe under it may still
lack what was written before (`Timeline.Strand.Pending`); writing, carrying along and taking a
snapshot make up for it.
-/

set_option autoImplicit false

namespace Storyboard

/-! ## What a timeline should show -/

section Ledgers

variable {ν : Type}

/-- The entry is a write of the timeline itself. -/
def LedgerEntry.isOwn (id : Nat) (entry : LedgerEntry ν) : Bool :=
  entry.timeline == id && !entry.carried

/-- The writes of a timeline itself, in order. -/
def ownWrites (ledger : List (LedgerEntry ν)) (id : Nat) : List (Stamped ν) :=
  (ledger.filter (LedgerEntry.isOwn id)).map LedgerEntry.stamped

/-- The value that a property had on a timeline before its first own write: what was inherited, else
what all timelines shared at that moment, else the computed style. -/
def valueBefore (ledger : List (LedgerEntry ν)) (id : Nat) (inherited : Option (Value ν)) :
    Value ν :=
  (inherited.or (sharedValue (ledger.takeWhile fun entry => !entry.isOwn id))).getD
    Value.automatic

/-- The value from before the first own write, if there is an own write at all. -/
def originalValue (ledger : List (LedgerEntry ν)) (id : Nat) (inherited : Option (Value ν)) :
    Option (Value ν) :=
  if (ownWrites ledger id).isEmpty then none else some (valueBefore ledger id inherited)

variable {ledger more : List (LedgerEntry ν)} {id : Nat}

theorem ownWrites_append (ledger more : List (LedgerEntry ν)) (id : Nat) :
    ownWrites (ledger ++ more) id = ownWrites ledger id ++ ownWrites more id := by
  rw [ownWrites, List.filter_append, List.map_append]
  rfl

/-- Nothing is an own write exactly when every entry of the timeline was carried over. -/
theorem ownWrites_eq_nil_iff :
    ownWrites ledger id = [] ↔ ∀ entry ∈ ledger, entry.isOwn id = false := by
  rw [ownWrites, List.map_eq_nil_iff, List.filter_eq_nil_iff]
  exact forall₂_congr fun entry _ => iff_of_eq (Bool.not_eq_true _)

theorem ownWrites_eq_nil (foreign : ∀ entry ∈ more, entry.timeline = id → entry.carried) :
    ownWrites more id = [] := by
  refine ownWrites_eq_nil_iff.2 fun entry member => ?_
  by_cases there : entry.timeline = id
  · rw [LedgerEntry.isOwn, foreign entry member there, Bool.not_true, Bool.and_false]
  · rw [LedgerEntry.isOwn, beq_false_of_ne there, Bool.false_and]

/-- Entries that are no own writes change nothing. -/
theorem ownWrites_append_foreign (foreign : ∀ entry ∈ more, entry.timeline = id → entry.carried) :
    ownWrites (ledger ++ more) id = ownWrites ledger id := by
  rw [ownWrites_append, ownWrites_eq_nil foreign, List.append_nil]

theorem ownWrites_concat (ledger : List (LedgerEntry ν)) (id : Nat) (write : Stamped ν) :
    ownWrites (ledger ++ [⟨id, write, false⟩]) id = ownWrites ledger id ++ [write] := by
  have own : LedgerEntry.isOwn id ⟨id, write, false⟩ = true := by
    simp [LedgerEntry.isOwn]
  rw [ownWrites_append, ownWrites, ownWrites, List.filter_singleton, own]
  rfl

/-- Once there is an own write, what comes later does not change the value from before it. -/
theorem valueBefore_append (written : ownWrites ledger id ≠ []) (inherited : Option (Value ν)) :
    valueBefore (ledger ++ more) id inherited = valueBefore ledger id inherited := by
  have stops : (ledger.takeWhile fun entry => !entry.isOwn id).length ≠ ledger.length := by
    intro through
    have whole := (List.takeWhile_prefix _).eq_of_length through
    refine written (ownWrites_eq_nil_iff.2 fun entry member => ?_)
    simpa using List.takeWhile_eq_self_iff.1 whole entry member
  rw [valueBefore, List.takeWhile_append, if_neg stops, valueBefore]

theorem originalValue_append_foreign
    (foreign : ∀ entry ∈ more, entry.timeline = id → entry.carried)
    (inherited : Option (Value ν)) :
    originalValue (ledger ++ more) id inherited = originalValue ledger id inherited := by
  rw [originalValue, originalValue, ownWrites_append_foreign foreign]
  by_cases written : ownWrites ledger id = []
  · rw [written]
    rfl
  · rw [valueBefore_append written]

/-- The first own write captures the inherited or shared value. -/
theorem originalValue_first (unwritten : ownWrites ledger id = []) (write : Stamped ν)
    (inherited : Option (Value ν)) :
    originalValue (ledger ++ [⟨id, write, false⟩]) id inherited =
      some ((inherited.or (sharedValue ledger)).getD Value.automatic) := by
  have before : (ledger ++ [(⟨id, write, false⟩ : LedgerEntry ν)]).takeWhile
      (fun entry => !entry.isOwn id) = ledger := by
    rw [List.takeWhile_append_of_pos]
    · simp [LedgerEntry.isOwn]
    · intro entry member
      rw [ownWrites_eq_nil_iff.1 unwritten entry member]
      rfl
  rw [originalValue, ownWrites_concat, unwritten, valueBefore, before]
  rfl

/-- A later own write changes nothing about it. -/
theorem originalValue_further (written : ownWrites ledger id ≠ []) (write : Stamped ν)
    (inherited : Option (Value ν)) :
    originalValue (ledger ++ [⟨id, write, false⟩]) id inherited =
      originalValue ledger id inherited := by
  rw [originalValue, originalValue, ownWrites_concat, valueBefore_append written]
  cases writes : ownWrites ledger id with
  | nil => exact absurd writes written
  | cons first rest => rfl

end Ledgers

/-- The value of the last write up to a time. -/
def lastWriteBy (writes : List (Stamped Rat)) (time : Rat) : Option (Value Rat) :=
  (writes.filter fun write => write.time ≤ time).getLast?.map Stamped.value

/-- **What a timeline shows of a property at an absolute time**: its last own write up to then, else
the value from before its first one. A property that the timeline never writes is not shown. -/
def replayed (ledger : List (LedgerEntry Rat)) (id : Nat) (inherited : Option (Value Rat))
    (time : Rat) : Option (Value Rat) :=
  (lastWriteBy (ownWrites ledger id) time).or (originalValue ledger id inherited)

theorem lastWriteBy_concat_of_lt (writes : List (Stamped Rat)) {write : Stamped Rat} {time : Rat}
    (later : time < write.time) :
    lastWriteBy (writes ++ [write]) time = lastWriteBy writes time := by
  have dropped : [write].filter (fun write => decide (write.time ≤ time)) = [] := by
    simp [later]
  rw [lastWriteBy, List.filter_append, dropped, List.append_nil]
  rfl

theorem lastWriteBy_concat_of_le (writes : List (Stamped Rat)) {write : Stamped Rat} {time : Rat}
    (reached : write.time ≤ time) : lastWriteBy (writes ++ [write]) time = some write.value := by
  have kept : [write].filter (fun write => decide (write.time ≤ time)) = [write] := by
    simp [reached]
  rw [lastWriteBy, List.filter_append, kept, List.getLast?_append]
  rfl

/-- Behind all writes the last of them counts. -/
theorem lastWriteBy_of_forall_le {writes : List (Stamped Rat)} {time : Rat}
    (past : ∀ write ∈ writes, write.time ≤ time) :
    lastWriteBy writes time = writes.getLast?.map Stamped.value := by
  have all : writes.filter (fun write => decide (write.time ≤ time)) = writes :=
    List.filter_eq_self.2 fun write member => decide_eq_true (past write member)
  rw [lastWriteBy, all]

/-! ## Strands that replay their writes -/

namespace Timeline.Strand

/-- Each keyframe has the last value written up to its time, and the backfill is the value from
before the first write. -/
structure Replays (ledger : List (LedgerEntry Rat)) (id : Nat) (strand : Strand Rat) : Prop where
  frames : ∀ frame ∈ strand.frames,
    frame.2 = lastWriteBy (ownWrites ledger id) (strand.start + frame.1)
  backfill : strand.backfill = originalValue ledger id strand.inherited

/-- The cursor stands at the last keyframe, and the keyframes stand at distinct times. -/
structure Paced (strand : Strand Rat) : Prop where
  distinct : strand.times.Nodup
  foremost : ∀ time ∈ strand.times, time ≤ strand.cursor
  underCursor : strand.times[strand.current]? = some strand.cursor

/-- The own writes of the timeline are behind the cursor, the last of them is the value on record,
and the backfill is the value from before the first one. -/
structure Recorded (ledger : List (LedgerEntry Rat)) (id : Nat) (strand : Strand Rat) : Prop where
  written : strand.written = (ownWrites ledger id).getLast?.map Stamped.value
  past : ∀ write ∈ ownWrites ledger id, write.time ≤ strand.now
  backfill : strand.backfill = originalValue ledger id strand.inherited

/-- The walk is on the timeline, whose keyframes all replay their writes. -/
structure Current (ledger : List (LedgerEntry Rat)) (id : Nat) (strand : Strand Rat) : Prop where
  paced : strand.Paced
  recorded : strand.Recorded ledger id
  frames : ∀ frame ∈ strand.frames,
    frame.2 = lastWriteBy (ownWrites ledger id) (strand.start + frame.1)

/-- The cursor has moved, and the keyframe under it may still be empty. -/
structure Pending (ledger : List (LedgerEntry Rat)) (id : Nat) (strand : Strand Rat) : Prop where
  paced : strand.Paced
  recorded : strand.Recorded ledger id
  others : ∀ index frame, strand.frames[index]? = some frame → index ≠ strand.current →
    frame.2 = lastWriteBy (ownWrites ledger id) (strand.start + frame.1)
  here : ∀ frame, strand.frames[strand.current]? = some frame →
    frame.2 = none ∨ frame.2 = lastWriteBy (ownWrites ledger id) (strand.start + frame.1)

variable {ledger : List (LedgerEntry Rat)} {id : Nat} {strand : Strand Rat}

theorem Current.replays (current : strand.Current ledger id) : strand.Replays ledger id :=
  ⟨current.frames, current.recorded.backfill⟩

theorem Current.pending (current : strand.Current ledger id) : strand.Pending ledger id where
  paced := current.paced
  recorded := current.recorded
  others _ frame found _ := current.frames frame (List.mem_of_getElem? found)
  here frame found := .inr (current.frames frame (List.mem_of_getElem? found))

/-- Behind the own writes the value on record is the last one. -/
theorem Recorded.lastWriteBy_now (recorded : strand.Recorded ledger id) :
    lastWriteBy (ownWrites ledger id) strand.now = strand.written := by
  rw [lastWriteBy_of_forall_le recorded.past, recorded.written]

/-! ### The pace of a strand -/

namespace Paced

theorem blank (start : Rat) (inherited : Option (Value Rat)) :
    (Strand.blank start inherited).Paced where
  distinct := List.nodup_singleton _
  foremost := by
    intro time member
    exact (List.mem_singleton.1 member).le
  underCursor := rfl

theorem capture (paced : strand.Paced) (known : Option (Value Rat)) :
    (strand.capture known).Paced := by
  unfold Strand.capture
  split
  · exact paced
  · exact ⟨paced.distinct, paced.foremost, paced.underCursor⟩

theorem edit (paced : strand.Paced) (change : Option (Value Rat) → Option (Value Rat)) :
    (strand.edit change).Paced where
  distinct := by
    rw [times_edit]
    exact paced.distinct
  foremost := by
    rw [times_edit]
    exact paced.foremost
  underCursor := by
    rw [times_edit]
    exact paced.underCursor

/-- Moving the cursor on opens a keyframe behind the others, unless it stays where it is. -/
theorem seek (paced : strand.Paced) {time : Rat} (onward : strand.cursor ≤ time) :
    (strand.seek time).Paced := by
  have foremost : ∀ earlier ∈ strand.times, earlier ≤ time := fun earlier member =>
    (paced.foremost earlier member).trans onward
  unfold Strand.seek
  split
  · next index found =>
    obtain ⟨bound, here, _⟩ := List.findIdx?_eq_some_iff_getElem.1 found
    have opened : strand.frames[index].1 = time := by simpa using here
    refine ⟨paced.distinct, foremost, ?_⟩
    show (strand.frames.map Prod.fst)[index]? = some time
    rw [List.getElem?_map, List.getElem?_eq_getElem bound, Option.map_some, opened]
  · next absent =>
    have fresh : time ∉ strand.times := by
      intro member
      obtain ⟨frame, opened, same⟩ := List.mem_map.1 member
      have unequal := List.findIdx?_eq_none_iff.1 absent frame opened
      simp [same] at unequal
    have times : (strand.frames ++ [(time, none)]).map Prod.fst = strand.times ++ [time] :=
      List.map_append
    refine ⟨?_, ?_, ?_⟩
    · show ((strand.frames ++ [(time, none)]).map Prod.fst).Nodup
      rw [times]
      exact (List.perm_append_singleton time strand.times).nodup_iff.2
        (List.nodup_cons.2 ⟨fresh, paced.distinct⟩)
    · show ∀ earlier ∈ (strand.frames ++ [(time, none)]).map Prod.fst, earlier ≤ time
      rw [times]
      intro earlier member
      rcases List.mem_append.1 member with before | last
      · exact foremost earlier before
      · exact (List.mem_singleton.1 last).le
    · show ((strand.frames ++ [(time, none)]).map Prod.fst)[strand.frames.length]? = some time
      rw [times, ← List.length_map Prod.fst]
      exact List.getElem?_concat_length

theorem standing (paced : strand.Paced) : strand.Standing :=
  ⟨paced.distinct, paced.underCursor⟩

/-- Keyframes other than the one under the cursor stand before it. -/
theorem lt_cursor (paced : strand.Paced) {index : Nat} {frame : Rat × Option (Value Rat)}
    (found : strand.frames[index]? = some frame) (apart : index ≠ strand.current) :
    frame.1 < strand.cursor := by
  have there : frame.1 ∈ strand.times := List.mem_map_of_mem (List.mem_of_getElem? found)
  refine lt_of_le_of_ne (paced.foremost _ there) fun same => apart ?_
  exact ((paced.standing.time_eq_cursor_iff found).1 same).symm

/-- The keyframe under the cursor stands there. -/
theorem time_eq_cursor (paced : strand.Paced) {frame : Rat × Option (Value Rat)}
    (found : strand.frames[strand.current]? = some frame) : frame.1 = strand.cursor :=
  (paced.standing.time_eq_cursor_iff found).2 rfl

end Paced

/-! ### The record of a strand -/

namespace Recorded

theorem edit (recorded : strand.Recorded ledger id)
    (change : Option (Value Rat) → Option (Value Rat)) :
    (strand.edit change).Recorded ledger id :=
  ⟨recorded.written, recorded.past, recorded.backfill⟩

/-- The first own write captures the value from before it, a later one captures nothing. -/
theorem backfill_capture (recorded : strand.Recorded ledger id) (write : Stamped Rat) :
    (strand.capture (sharedValue ledger)).backfill =
      originalValue (ledger ++ [⟨id, write, false⟩]) id strand.inherited := by
  by_cases unwritten : ownWrites ledger id = []
  · have written : strand.written = none := by
      rw [recorded.written, unwritten]
      rfl
    have backfill : strand.backfill = none := by
      rw [recorded.backfill, originalValue, unwritten]
      rfl
    rw [originalValue_first unwritten, Strand.capture, written, backfill]
    rfl
  · have written : strand.written.isSome = true := by
      rw [recorded.written, Option.isSome_map, List.getLast?_isSome]
      exact unwritten
    rw [originalValue_further unwritten, Strand.capture, written, Bool.true_or, if_pos rfl,
      recorded.backfill]

theorem write (recorded : strand.Recorded ledger id) (value : Value Rat) :
    (strand.write value (sharedValue ledger)).Recorded
      (ledger ++ [⟨id, ⟨strand.now, value⟩, false⟩]) id where
  written := by
    rw [ownWrites_concat, List.getLast?_append]
    rfl
  past := by
    have now : (strand.write value (sharedValue ledger)).now = strand.now :=
      congrArg₂ (· + ·) (strand.start_capture _) (strand.cursor_capture _)
    intro write member
    rw [ownWrites_concat] at member
    rw [now]
    rcases List.mem_append.1 member with earlier | last
    · exact recorded.past write earlier
    · rw [List.mem_singleton.1 last]
  backfill := by
    refine (recorded.backfill_capture ⟨strand.now, value⟩).trans ?_
    rw [← strand.inherited_capture (sharedValue ledger)]
    rfl

end Recorded

/-! ### The operations of a strand -/

theorem current_blank {start : Rat} {inherited : Option (Value Rat)}
    (unopened : ∀ entry ∈ ledger, entry.timeline ≠ id) :
    (Strand.blank start inherited).Current ledger id := by
  have unwritten : ownWrites ledger id = [] :=
    ownWrites_eq_nil fun entry member there => absurd there (unopened entry member)
  refine ⟨.blank start inherited, ⟨?_, ?_, ?_⟩, ?_⟩
  · rw [unwritten]
    rfl
  · rw [unwritten]
    exact fun write member => absurd member List.not_mem_nil
  · rw [originalValue, unwritten]
    rfl
  · intro frame member
    rw [List.mem_singleton.1 member, unwritten]
    rfl

theorem Current.seek (current : strand.Current ledger id) {time : Rat}
    (onward : strand.cursor ≤ time) : (strand.seek time).Pending ledger id := by
  have paced := current.paced.seek onward
  have past : ∀ write ∈ ownWrites ledger id, write.time ≤ strand.start + time :=
    fun write member => (current.recorded.past write member).trans (add_le_add_right onward _)
  unfold Strand.seek at paced ⊢
  split
  · next index found =>
    simp only [found] at paced
    refine ⟨paced, ⟨current.recorded.written, past, current.recorded.backfill⟩, ?_, ?_⟩
    · exact fun _ frame here _ => current.frames frame (List.mem_of_getElem? here)
    · exact fun frame here => .inr (current.frames frame (List.mem_of_getElem? here))
  · next absent =>
    simp only [absent] at paced
    refine ⟨paced, ⟨current.recorded.written, past, current.recorded.backfill⟩, ?_, ?_⟩
    · intro index frame here apart
      have apart : index ≠ strand.frames.length := apart
      rw [List.getElem?_append] at here
      split at here
      · exact current.frames frame (List.mem_of_getElem? here)
      · next beyond =>
        rw [List.getElem?_eq_none (by rw [List.length_singleton]; omega)] at here
        exact nomatch here
    · intro frame here
      rw [List.getElem?_concat_length] at here
      exact .inl (Option.some.inj here ▸ rfl)

/-- What puts the last write into the keyframe under the cursor makes up for the move. -/
theorem Pending.edit (pending : strand.Pending ledger id)
    {change : Option (Value Rat) → Option (Value Rat)}
    (filled : ∀ own, own = none ∨ own = strand.written → change own = strand.written) :
    (strand.edit change).Current ledger id := by
  refine ⟨pending.paced.edit change, pending.recorded.edit change, ?_⟩
  intro frame member
  obtain ⟨index, found⟩ := List.mem_iff_getElem?.1 member
  rw [getElem?_frames_edit] at found
  split at found
  · next here =>
    obtain ⟨before, standing, rfl⟩ := Option.map_eq_some_iff.1 found
    rw [← here] at standing
    have now := pending.recorded.lastWriteBy_now
    have known := pending.here before standing
    rw [pending.paced.time_eq_cursor standing] at known ⊢
    show change before.2 = lastWriteBy (ownWrites ledger id) strand.now
    rw [now]
    exact filled before.2 (known.imp_right fun same => same.trans now)
  · next apart => exact pending.others index frame found (Ne.symm apart)

theorem Pending.carry (pending : strand.Pending ledger id) : strand.carry.Current ledger id := by
  refine pending.edit fun own known => ?_
  rcases known with none | same
  · rw [none, Option.none_or]
  · rw [same, Option.or_self]

theorem Pending.snapshot (pending : strand.Pending ledger id) :
    strand.snapshot.Current ledger id := by
  refine pending.edit fun own known => ?_
  rcases known with none | same
  · rw [none, Option.or_none]
  · rw [same, Option.or_self]

theorem Pending.write (pending : strand.Pending ledger id) (value : Value Rat) :
    (strand.write value (sharedValue ledger)).Current
      (ledger ++ [⟨id, ⟨strand.now, value⟩, false⟩]) id := by
  have captured := pending.paced.capture (sharedValue ledger)
  have adopted : ({ strand.capture (sharedValue ledger) with
      written := some value } : Strand Rat).Paced :=
    ⟨captured.distinct, captured.foremost, captured.underCursor⟩
  refine ⟨adopted.edit _, pending.recorded.write value, ?_⟩
  intro frame member
  obtain ⟨index, found⟩ := List.mem_iff_getElem?.1 member
  have start : (strand.write value (sharedValue ledger)).start = strand.start :=
    strand.start_capture _
  rw [start, ownWrites_concat]
  rw [Strand.write, getElem?_frames_edit] at found
  simp only [current_capture, frames_capture] at found
  split at found
  · next here =>
    -- The keyframe under the cursor has the value just written.
    obtain ⟨before, standing, rfl⟩ := Option.map_eq_some_iff.1 found
    rw [← here] at standing
    rw [pending.paced.time_eq_cursor standing]
    have reached : (⟨strand.now, value⟩ : Stamped Rat).time ≤ strand.start + strand.cursor :=
      le_refl strand.now
    exact (lastWriteBy_concat_of_le _ reached).symm
  · next apart =>
    -- The write is later than any other keyframe.
    have earlier := pending.paced.lt_cursor found (Ne.symm apart)
    rw [lastWriteBy_concat_of_lt _ (add_lt_add_right earlier strand.start)]
    exact pending.others index frame found (Ne.symm apart)

/-- What is done to other timelines, and what is marked as written, does not matter to a timeline
that was left. -/
theorem Replays.append (replays : strand.Replays ledger id) {more : List (LedgerEntry Rat)}
    (foreign : ∀ entry ∈ more, entry.timeline = id → entry.carried) :
    strand.Replays (ledger ++ more) id where
  frames frame member := by
    rw [ownWrites_append_foreign foreign]
    exact replays.frames frame member
  backfill := by
    rw [originalValue_append_foreign foreign]
    exact replays.backfill

theorem Replays.of_shown {other : Strand Rat} (same : strand.shown = other.shown)
    (replays : strand.Replays ledger id) : other.Replays ledger id := by
  have start : strand.start = other.start := (congrArg Strand.start same :)
  have frames : strand.frames = other.frames := (congrArg Strand.frames same :)
  have inherited : strand.inherited = other.inherited := (congrArg Strand.inherited same :)
  have backfill : strand.backfill = other.backfill := (congrArg Strand.backfill same :)
  refine ⟨fun frame member => ?_, ?_⟩
  · rw [← start]
    exact replays.frames frame (frames ▸ member)
  · rw [← backfill, ← inherited]
    exact replays.backfill

end Timeline.Strand

end Storyboard
