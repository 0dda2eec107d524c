import Storyboard.Proofs.Timeline.Emission
import Storyboard.Proofs.Timeline.Strand

/-!
# Strands with explicit values

A value is explicit when it does not leave the property to the computed style. A strand is at rest
with explicit values (`Timeline.Strand.Resting`) when its tables hold explicit values only and each
of its keyframes shows one, if it shows any: an own value, or else the backfill.

The backfill itself need not be explicit. The first write of a property that nothing is known about
captures the computed style, and from then on every keyframe must have a value of its own. While
the cursor has just moved to a keyframe, that one keyframe is excused (`Timeline.Strand.Arrived`);
carrying along what was written, a snapshot, or the next write gives it its value, and the strand
is settled again (`Timeline.Strand.Settled`).
-/

set_option autoImplicit false

namespace Storyboard

variable {ν : Type}

/-- The value, if there is one, is not left to the computed style. -/
def Explicit (value : Option (Value ν)) : Prop :=
  value ≠ some Value.automatic

theorem explicit_none : Explicit (none : Option (Value ν)) :=
  fun impossible => nomatch impossible

namespace Explicit

variable {first second : Option (Value ν)}

theorem or (explicit : Explicit first) (other : Explicit second) : Explicit (first.or second) := by
  cases first with
  | none => exact other
  | some value => exact explicit

theorem of_or (explicit : Explicit (first.or second)) : Explicit first := by
  cases first with
  | none => exact explicit_none
  | some value => exact explicit

end Explicit

namespace Timeline.Strand

/-- The tables hold explicit values, and so do the keyframes as they are emitted. -/
structure Resting (strand : Strand ν) : Prop where
  bound : strand.current < strand.frames.length
  written : Explicit strand.written
  inherited : Explicit strand.inherited
  shown : ∀ frame ∈ strand.frames, Explicit (frame.2.or strand.backfill)

/-- The strand is at rest, and what is written stands at the cursor too. Only a property that was
written is backfilled with the computed style. -/
structure Settled (strand : Strand ν) : Prop extends Resting strand where
  carried : strand.written.isSome → (strand.frames[strand.current]?.bind Prod.snd).isSome
  backed : strand.backfill = some .automatic → strand.written.isSome

/-- The strand is at rest but for the keyframe under the cursor. -/
structure Arrived (strand : Strand ν) : Prop where
  bound : strand.current < strand.frames.length
  written : Explicit strand.written
  inherited : Explicit strand.inherited
  own : ∀ frame ∈ strand.frames, Explicit frame.2
  others : ∀ index frame, strand.frames[index]? = some frame → strand.current ≠ index →
    Explicit (frame.2.or strand.backfill)
  backed : strand.backfill = some .automatic → strand.written.isSome

variable {strand : Strand ν}

theorem Settled.arrived (settled : strand.Settled) : strand.Arrived where
  bound := settled.bound
  written := settled.written
  inherited := settled.inherited
  own frame member := (settled.shown frame member).of_or
  others _ frame found _ := settled.shown frame (List.mem_of_getElem? found)
  backed := settled.backed

theorem settled_blank [Scalar ν] (start : ν) {inherited : Option (Value ν)}
    (explicit : Explicit inherited) : (Strand.blank start inherited).Settled where
  bound := Nat.one_pos
  written := explicit_none
  inherited := explicit
  shown frame member := by
    rw [List.mem_singleton.1 member]
    exact explicit_none
  carried written := absurd written Bool.false_ne_true
  backed impossible := nomatch impossible

/-- A keyframe that was just opened has no value, and all others stay as they are. -/
theorem Settled.seek [Scalar ν] (settled : strand.Settled) (time : ν) :
    (strand.seek time).Arrived := by
  unfold Strand.seek
  split
  · next index found =>
    obtain ⟨bound, _⟩ := List.findIdx?_eq_some_iff_getElem.1 found
    have arrived := settled.arrived
    exact ⟨bound, arrived.written, arrived.inherited, arrived.own,
      fun _ frame there _ => settled.shown frame (List.mem_of_getElem? there), arrived.backed⟩
  · refine ⟨by simp, settled.written, settled.inherited, ?_, ?_, settled.backed⟩
    · intro frame member
      rcases List.mem_append.1 member with earlier | opened
      · exact (settled.shown frame earlier).of_or
      · rw [List.mem_singleton.1 opened]
        exact explicit_none
    · intro index frame found apart
      have bound : index < strand.frames.length := by
        have within := (List.getElem?_eq_some_iff.1 found).1
        rw [List.length_append, List.length_singleton] at within
        exact Nat.lt_of_le_of_ne (Nat.le_of_lt_succ within) (Ne.symm apart)
      rw [List.getElem?_append_left bound] at found
      exact settled.shown frame (List.mem_of_getElem? found)

namespace Arrived

/-- Giving the keyframe under the cursor a value that may be shown settles the strand. -/
theorem edit (arrived : strand.Arrived) {change : Option (Value ν) → Option (Value ν)}
    (explicit : ∀ own, Explicit own → Explicit ((change own).or strand.backfill))
    (carries : ∀ own, strand.written.isSome → (change own).isSome) :
    (strand.edit change).Settled where
  bound := by
    rw [Strand.edit, List.length_modify]
    exact arrived.bound
  written := arrived.written
  inherited := arrived.inherited
  shown frame member := by
    obtain ⟨index, found⟩ := List.mem_iff_getElem?.1 member
    rw [getElem?_frames_edit] at found
    split at found
    · obtain ⟨before, stood, rfl⟩ := Option.map_eq_some_iff.1 found
      exact explicit before.2 (arrived.own before (List.mem_of_getElem? stood))
    · next apart => exact arrived.others index frame found apart
  carried written := by
    have here : (strand.edit change).frames[strand.current]? = _ :=
      getElem?_frames_edit strand change strand.current
    rw [if_pos rfl, List.getElem?_eq_getElem arrived.bound] at here
    show ((strand.edit change).frames[strand.current]?.bind Prod.snd).isSome
    rw [here]
    exact carries _ written
  backed := arrived.backed

/-- What was written stands above the backfill, which is explicit if nothing was written. -/
theorem explicit_above (arrived : strand.Arrived) :
    Explicit (strand.written.or strand.backfill) := by
  have explicit := arrived.written
  cases written : strand.written with
  | some value =>
    rw [written] at explicit
    exact explicit
  | none =>
    intro captured
    have there := arrived.backed captured
    rw [written] at there
    exact absurd there Bool.false_ne_true

theorem carry (arrived : strand.Arrived) : strand.carry.Settled := by
  refine arrived.edit (fun own explicit => ?_) fun own written => ?_
  · rw [Option.or_assoc]
    exact explicit.or arrived.explicit_above
  · rw [Option.isSome_or, written, Bool.or_true]

theorem snapshot (arrived : strand.Arrived) : strand.snapshot.Settled := by
  refine arrived.edit (fun own explicit => ?_) fun own written => ?_
  · have above := arrived.explicit_above
    have recorded := arrived.written
    cases written : strand.written with
    | some value =>
      rw [written] at recorded
      exact recorded
    | none =>
      rw [written] at above
      exact explicit.or above
  · rw [Option.isSome_or, written, Bool.true_or]

/-- Where the property is known, the value that its first write captures is explicit. -/
theorem capture (arrived : strand.Arrived) {known : Value ν} (given : Explicit (some known)) :
    (strand.capture (some known)).Arrived := by
  unfold Strand.capture
  split
  · exact arrived
  · have before : Explicit (some ((strand.inherited.or (some known)).getD Value.automatic)) := by
      cases inherited : strand.inherited with
      | none => exact given
      | some value => exact inherited ▸ arrived.inherited
    exact ⟨arrived.bound, arrived.written, arrived.inherited, arrived.own,
      fun _ frame found _ => (arrived.own frame (List.mem_of_getElem? found)).or before,
      fun captured => absurd captured before⟩

theorem write (arrived : strand.Arrived) {value known : Value ν}
    (explicit : Explicit (some value)) (given : Explicit (some known)) :
    (strand.write value (some known)).Settled := by
  have captured := arrived.capture given
  have recorded : ({ strand.capture (some known) with written := some value } :
      Strand ν).Arrived :=
    { captured with written := explicit, backed := fun _ => rfl }
  exact recorded.edit (fun _ _ => explicit) fun _ _ => rfl

end Arrived

/-- The first write of a property that nothing is known about captures the computed style, but the
keyframe of the write is the only one. -/
theorem settled_write_blank [Scalar ν] (start : ν) {value : Value ν}
    (explicit : Explicit (some value)) :
    ((Strand.blank start none).write value none).Settled where
  bound := Nat.one_pos
  written := explicit
  inherited := explicit_none
  shown frame member := by
    rw [List.mem_singleton.1 member]
    exact explicit
  carried _ := rfl
  backed _ := rfl

end Timeline.Strand

/-- A keyframe of an instruction shows what a keyframe of the strand shows: its own value, or else
the backfill. -/
theorem Timeline.get?_of_keyframe [Scalar ν] {timeline : Timeline ν} {property : String}
    (free : property ≠ offsetKey)
    (bound : (timeline.strand property).current < (timeline.strand property).frames.length)
    {keyframe : Styles ν} (emitted : keyframe ∈ timeline.instruction.keyframes) :
    ∃ frame ∈ (timeline.strand property).frames,
      keyframe.get? property = frame.2.or (timeline.strand property).backfill := by
  have shows : ∀ frame ∈ timeline.frames, ∀ offset,
      keyframe = timeline.emit frame.styles offset →
        ∃ frame ∈ (timeline.strand property).frames,
          keyframe.get? property = frame.2.or (timeline.strand property).backfill := by
    rintro frame member offset rfl
    exact ⟨_, List.mem_map_of_mem member, timeline.get?_emit frame.styles offset free⟩
  obtain ⟨here, found⟩ : ∃ frame, timeline.frames[timeline.current]? = some frame := by
    rw [Timeline.strand, List.length_map] at bound
    exact ⟨_, List.getElem?_eq_getElem bound⟩
  have current : timeline.currentStyles = here.styles := by
    rw [Timeline.currentStyles, found]
  simp only [Timeline.instruction, current] at emitted
  split at emitted
  · rcases List.mem_cons.1 emitted with first | rest
    · exact shows here (List.mem_of_getElem? found) _ first
    · exact shows here (List.mem_of_getElem? found) _ (List.mem_singleton.1 rest)
  · obtain ⟨frame, member, rfl⟩ := List.mem_map.1 emitted
    exact shows frame ((Keyframe.perm_sortByTime timeline.frames).mem_iff.1 member) _ rfl

end Storyboard
