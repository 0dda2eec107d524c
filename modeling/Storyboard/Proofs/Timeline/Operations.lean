import Storyboard.Proofs.Number.Sums
import Storyboard.Proofs.OrderedMap.Lookup
import Storyboard.Proofs.Timeline.Skeleton

/-!
# Stages in working order

A stage can be worked on in any order: timelines are created and forked, cursors are moved on and
set back, styles are written, carried along, marked as computed, and taken over from one timeline
to another. `Stage.Operation` has one case for each way, and a run of a stage is any list of them.

Whatever the run, each timeline stays in working order. Its keyframes stand at times that are
unequal and from zero on, one of them at zero, and its cursor is on one of them
(`Timeline.Skeleton.Regular`). Its tables agree with each other, what it has written is shared, and
no table and no keyframe has an entry under the reserved offset (`Timeline.Tidy`). And what a
timeline has captured for a property, it keeps (`Stage.Retains`).

Nothing is asked but that no cursor is moved by a frame of negative length. The numbers may be
rounded, and they may be infinite.
-/

set_option autoImplicit false

namespace Storyboard

variable {ν : Type}

/-! ## Operations -/

namespace Stage

/-- One operation on a stage. -/
inductive Operation (ν : Type) where
  | create (start : ν)
  | fork (parent : Nat) (start : Option ν) (inherits : Bool)
  | forwardFrame (id : Nat) (length : ν)
  | forwardTo (id : Nat) (time : ν)
  | snapshot (id : Nat)
  | write (id : Nat) (styles : Styles ν) (easing : Option String)
  | writeEmptyStep (id : Nat) (easing : Option String)
  | land (id : Nat) (styles : Styles ν)
  | absorb (target source : Nat)

variable [Scalar ν]

/-- The stage after an operation. -/
def perform (stage : Stage ν) : Operation ν → Stage ν
  | .create start => stage.create start
  | .fork parent start inherits => stage.fork parent start inherits
  | .forwardFrame id length => stage.modify id fun timeline => timeline.forwardFrame length
  | .forwardTo id time => stage.modify id fun timeline => timeline.forwardTo time
  | .snapshot id => stage.modify id Timeline.snapshot
  | .write id styles easing => stage.write id styles easing
  | .writeEmptyStep id easing => stage.writeEmptyStep id easing
  | .land id styles => stage.land id styles
  | .absorb target source => stage.absorb target source

/-- The stage after operations, from the empty one on. -/
def run (operations : List (Operation ν)) : Stage ν :=
  operations.foldl perform empty

/-- The operation moves no cursor on by a negative amount. -/
def Operation.Onward : Operation ν → Prop
  | .forwardFrame _ length => Scalar.atMost 0 length = true
  | _ => True

end Stage

/-! ## Keyframes -/

namespace Timeline

section Keyframes

variable [Scalar ν]

/-- The keyframes stand at unequal times from zero on, one of them at zero, and the cursor is on
one of them, as it was before it last moved. -/
structure Skeleton.Regular (skeleton : Skeleton ν) : Prop where
  distinct : skeleton.times.Pairwise fun first second => (first == second) = false
  nonneg : ∀ time ∈ skeleton.times, Scalar.atMost 0 time = true
  opened : 0 ∈ skeleton.times
  underCursor : ∃ time, skeleton.times[skeleton.current]? = some time ∧
    (time == skeleton.cursor) = true
  passed : ∀ index, skeleton.previous = some index → index < skeleton.times.length

namespace Skeleton.Regular

variable {skeleton : Skeleton ν}

theorem current_lt (regular : skeleton.Regular) : skeleton.current < skeleton.times.length := by
  obtain ⟨time, found, _⟩ := regular.underCursor
  exact (List.getElem?_eq_some_iff.1 found).1

variable [LawfulSums ν]

theorem cursor_nonneg (regular : skeleton.Regular) : Scalar.atMost 0 skeleton.cursor = true := by
  obtain ⟨time, found, here⟩ := regular.underCursor
  have nonneg := regular.nonneg time (List.mem_of_getElem? found)
  exact Scalar.atMost_trans nonneg (Scalar.atMost_iff.2 (.inr here))

theorem blank (start : ν) (inherited : Styles ν) :
    (Timeline.blank start inherited).skeleton.Regular where
  distinct := List.pairwise_singleton _ _
  nonneg time member := by
    rw [List.mem_singleton.1 member]
    exact Scalar.atMost_self LawfulScalar.zero_proper
  opened := List.mem_singleton.2 rfl
  underCursor := ⟨0, rfl, LawfulScalar.zero_proper⟩
  passed index earlier := absurd earlier.symm (Option.some_ne_none index)

/-- The cursor may be moved to any time from zero on. -/
theorem seek (regular : skeleton.Regular) {time : ν} (nonneg : Scalar.atMost 0 time = true) :
    (skeleton.seek time).Regular where
  distinct := distinct_seek regular.distinct time
  nonneg := forall_times_seek regular.nonneg nonneg
  opened := mem_times_seek_of_mem regular.opened time
  underCursor := by
    rw [cursor_seek]
    exact skeleton.underCursor_seek (Scalar.proper_of_atMost nonneg).2
  passed index same := by
    obtain ⟨added, times, _⟩ := skeleton.times_seek time
    have left : (skeleton.seek time).previous = some skeleton.current := by
      unfold Skeleton.seek
      split <;> rfl
    obtain rfl : skeleton.current = index := Option.some.inj (left.symm.trans same)
    rw [times, List.length_append]
    exact Nat.lt_add_right _ regular.current_lt

end Skeleton.Regular

end Keyframes

/-! ## Tables -/

/-- The tables of a timeline agree, what it has written is shared, and nothing has an entry under
the reserved offset. -/
structure Tidy (shared : Styles ν) (timeline : Timeline ν) : Prop where
  recorded : ∀ property,
    timeline.written.get? property = (timeline.summary.get? property).map Stamped.value
  known : ∀ property, timeline.written.contains property = true → shared.contains property = true
  frames : ∀ frame ∈ timeline.frames, frame.styles.get? offsetKey = none
  written : timeline.written.get? offsetKey = none
  inherited : timeline.inherited.get? offsetKey = none
  backfill : timeline.backfill.get? offsetKey = none
  summary : timeline.summary.get? offsetKey = none

namespace Tidy

variable {shared : Styles ν} {timeline : Timeline ν} {property : String}

theorem mono {more : Styles ν} (tidy : timeline.Tidy shared)
    (grows : ∀ property, shared.contains property = true → more.contains property = true) :
    timeline.Tidy more :=
  { tidy with known := fun property written => grows property (tidy.known property written) }

theorem blank [Scalar ν] (start : ν) {inherited : Styles ν}
    (free : inherited.get? offsetKey = none) :
    (Timeline.blank start inherited).Tidy shared where
  recorded _ := rfl
  known property written := absurd written (OrderedMap.not_contains_empty property)
  frames frame member := by
    rw [List.mem_singleton.1 member]
    rfl
  written := rfl
  inherited := free
  backfill := rfl
  summary := rfl

/-- What a timeline knows has no entry under the reserved offset either. -/
theorem effective (tidy : timeline.Tidy shared) : timeline.effective.get? offsetKey = none := by
  rw [Timeline.effective, OrderedMap.get?_overlay, tidy.written, tidy.inherited]
  rfl

theorem seek [Scalar ν] (tidy : timeline.Tidy shared) (time : ν) :
    (timeline.seek time).Tidy shared := by
  unfold Timeline.seek
  split
  · exact { tidy with }
  · refine { tidy with frames := fun frame member => ?_ }
    rcases List.mem_append.1 member with earlier | last
    · exact tidy.frames frame earlier
    · rw [List.mem_singleton.1 last]
      rfl

theorem editFrame (tidy : timeline.Tidy shared) (index : Nat) {edit : Styles ν → Styles ν}
    (free : ∀ styles : Styles ν, styles.get? offsetKey = none →
      (edit styles).get? offsetKey = none) :
    (timeline.editFrame index edit).Tidy shared :=
  { tidy with frames := forall_mem_modify tidy.frames index fun frame => free frame.styles }

theorem editCurrent (tidy : timeline.Tidy shared) {edit : Styles ν → Styles ν}
    (free : ∀ styles : Styles ν, styles.get? offsetKey = none →
      (edit styles).get? offsetKey = none) :
    (timeline.editCurrent edit).Tidy shared :=
  tidy.editFrame timeline.current free

theorem snapshot (tidy : timeline.Tidy shared) : timeline.snapshot.Tidy shared := by
  refine tidy.editCurrent fun styles free => ?_
  rw [OrderedMap.get?_overlay, tidy.written, free]
  rfl

theorem carryWritten (tidy : timeline.Tidy shared) : timeline.carryWritten.Tidy shared := by
  refine tidy.editCurrent fun styles free => ?_
  rw [OrderedMap.get?_fillFrom, tidy.written, free]
  rfl

theorem easeSegment (tidy : timeline.Tidy shared) (easing : String) :
    (timeline.easeSegment easing).Tidy shared :=
  tidy.editFrame _ fun styles free => by
    rw [OrderedMap.get?_insert, if_neg (by decide), free]

theorem capture (tidy : timeline.Tidy shared) (free : property ≠ offsetKey)
    (known : Option (Value ν)) : (timeline.capture property known).Tidy shared := by
  unfold Timeline.capture
  split
  · exact tidy
  · refine { tidy with backfill := ?_ }
    rw [OrderedMap.get?_insert, if_neg free, tidy.backfill]

theorem insertCurrent (tidy : timeline.Tidy shared) (free : property ≠ offsetKey)
    (value : Value ν) :
    (timeline.editCurrent fun styles => styles.insert property value).Tidy shared :=
  tidy.editCurrent fun styles before => by
    rw [OrderedMap.get?_insert, if_neg free, before]

theorem blankOut (tidy : timeline.Tidy shared) (free : property ≠ offsetKey) (known : Value ν) :
    (timeline.blankOut property known).Tidy shared :=
  (tidy.capture free _).insertCurrent free _

/-- A value may be recorded once it is shared. -/
theorem adopt (tidy : timeline.Tidy shared) (free : property ≠ offsetKey)
    (there : shared.contains property = true) (stamped : Stamped ν) :
    (timeline.adopt property stamped).Tidy shared := by
  refine { tidy with recorded := fun other => ?_, known := fun other written => ?_,
                     written := ?_, summary := ?_ }
  · simp only [Timeline.adopt, OrderedMap.get?_insert]
    split
    · rfl
    · exact tidy.recorded other
  · by_cases same : property = other
    · exact same ▸ there
    · refine tidy.known other ?_
      simpa only [Timeline.adopt, OrderedMap.contains, OrderedMap.get?_insert, same, if_false]
        using written
  · simp only [Timeline.adopt, OrderedMap.get?_insert, free, if_false, tidy.written]
  · simp only [Timeline.adopt, OrderedMap.get?_insert, free, if_false, tidy.summary]

theorem write [Scalar ν] (tidy : timeline.Tidy shared) (free : property ≠ offsetKey)
    (there : shared.contains property = true) (value : Value ν) (known : Option (Value ν)) :
    (timeline.write property value known).Tidy shared :=
  ((tidy.capture free known).adopt free there _).insertCurrent free value

end Tidy

/-! ## Captured values -/

/-- What a timeline has captured, another one has too. -/
def Retains (before after : Timeline ν) : Prop :=
  ∀ property value, before.backfill.get? property = some value →
    after.backfill.get? property = some value

theorem retains_capture (timeline : Timeline ν) (property : String) (known : Option (Value ν)) :
    timeline.Retains (timeline.capture property known) := by
  intro other value captured
  unfold capture
  split
  · exact captured
  · next fresh =>
    have apart : property ≠ other := by
      intro same
      subst same
      have there : timeline.backfill.contains property = true := by
        rw [OrderedMap.contains, captured]
        rfl
      rw [there, Bool.or_true] at fresh
      exact fresh rfl
    rw [OrderedMap.get?_insert, if_neg apart, captured]

theorem retains_seek [Scalar ν] (timeline : Timeline ν) (time : ν) :
    timeline.Retains (timeline.seek time) := by
  intro property value captured
  unfold seek
  split <;> exact captured

end Timeline

/-! ## Stages -/

namespace Stage

/-- Writing styles eases the segment, writes one entry after another, and carries along. -/
@[elab_as_elim] theorem write_induction [Scalar ν] {motive : Stage ν → Prop} {stage : Stage ν}
    {id : Nat} (styles : Styles ν) {easing : Option String}
    (eased : motive (stage.easeSegment id easing))
    (entered : ∀ written entry, motive written → motive (written.writeEntry id entry))
    (carried : ∀ written, motive written → motive (written.modify id Timeline.carryWritten)) :
    motive (stage.write id styles easing) := by
  refine carried _ (List.foldlRecOn (motive := motive) _ _ eased ?_)
  exact fun written kept entry _ => entered written entry kept

/-- What the timelines of a stage have captured, those of another one have too. -/
def Retains (before after : Stage ν) : Prop :=
  ∀ id timeline, before.get? id = some timeline →
    ∃ later, after.get? id = some later ∧ timeline.Retains later

namespace Retains

variable {before middle after : Stage ν}

theorem refl (stage : Stage ν) : stage.Retains stage :=
  fun _ timeline found => ⟨timeline, found, fun _ _ captured => captured⟩

theorem trans (earlier : before.Retains middle) (next : middle.Retains after) :
    before.Retains after := by
  intro id timeline found
  obtain ⟨between, there, kept⟩ := earlier id timeline found
  obtain ⟨later, here, retained⟩ := next id between there
  refine ⟨later, here, fun property value captured => ?_⟩
  exact retained property value (kept property value captured)

theorem push (stage : Stage ν) (timeline : Timeline ν) : stage.Retains (stage.push timeline) := by
  intro id earlier found
  have bound : id < stage.timelines.length := (List.getElem?_eq_some_iff.1 found).1
  refine ⟨earlier, ?_, fun _ _ captured => captured⟩
  rw [get?, Stage.push, List.getElem?_append_left bound]
  exact found

theorem modify (stage : Stage ν) (id : Nat) {change : Timeline ν → Timeline ν}
    (kept : ∀ timeline : Timeline ν, timeline.Retains (change timeline)) :
    stage.Retains (stage.modify id change) := by
  intro other timeline found
  have here : stage.timelines[other]? = some timeline := found
  simp only [get?, Stage.modify, List.getElem?_modify, here]
  by_cases same : id = other
  · simpa [same] using kept timeline
  · exact ⟨timeline, by simp [same], fun _ _ captured => captured⟩

theorem easeSegment (stage : Stage ν) (id : Nat) (easing : Option String) :
    stage.Retains (stage.easeSegment id easing) := by
  cases easing with
  | none => exact refl stage
  | some easing => exact modify stage id fun _ _ _ captured => captured

theorem writeEmptyStep (stage : Stage ν) (id : Nat) (easing : Option String) :
    stage.Retains (stage.writeEmptyStep id easing) := by
  refine (easeSegment stage id easing).trans (modify _ id fun timeline => ?_)
  refine List.foldlRecOn (motive := fun marked => timeline.Retains marked) _ _
    (fun _ _ captured => captured) ?_
  intro marked kept entry _ property value captured
  exact marked.retains_capture entry.1 _ property value (kept property value captured)

theorem adoptEntry (stage : Stage ν) (id : Nat) (entry : String × Stamped ν) :
    stage.Retains (stage.adoptEntry id entry) :=
  modify stage id fun _ _ _ captured => captured

variable [Scalar ν]

theorem writeEntry (stage : Stage ν) (id : Nat) (entry : String × Value ν) :
    stage.Retains (stage.writeEntry id entry) := by
  unfold Stage.writeEntry
  split
  · exact refl stage
  · exact modify stage id fun timeline => timeline.retains_capture entry.1 _

theorem write (stage : Stage ν) (id : Nat) (styles : Styles ν) (easing : Option String) :
    stage.Retains (stage.write id styles easing) := by
  refine write_induction styles (easeSegment stage id easing) ?_ ?_
  · exact fun written entry kept => kept.trans (writeEntry written id entry)
  · exact fun written kept => kept.trans (modify written id fun _ _ _ captured => captured)

theorem absorb (stage : Stage ν) (target source : Nat) :
    stage.Retains (stage.absorb target source) := by
  refine List.foldlRecOn (motive := fun merged => stage.Retains merged) _ _ (refl stage) ?_
  intro merged kept entry _
  exact kept.trans (adoptEntry merged target entry)

/-- **A captured value never changes**, whatever operation follows. -/
theorem perform (stage : Stage ν) (operation : Operation ν) :
    stage.Retains (stage.perform operation) := by
  cases operation with
  | create start => exact push stage _
  | fork parent start inherits => exact push stage _
  | forwardFrame id length => exact modify stage id fun timeline => timeline.retains_seek _
  | forwardTo id time => exact modify stage id fun timeline => timeline.retains_seek _
  | snapshot id => exact modify stage id fun _ _ _ captured => captured
  | write id styles easing => exact write stage id styles easing
  | writeEmptyStep id easing => exact writeEmptyStep stage id easing
  | land id styles =>
    exact (write stage id styles none).trans (modify _ id fun _ _ _ captured => captured)
  | absorb target source => exact absorb stage target source

theorem performAll (operations : List (Operation ν)) (stage : Stage ν) :
    stage.Retains (operations.foldl Stage.perform stage) := by
  refine List.foldlRecOn (motive := fun reached => stage.Retains reached) _ _ (refl stage) ?_
  intro reached kept operation _
  exact kept.trans (perform reached operation)

end Retains

variable [Scalar ν]

/-- Every timeline of the stage is in working order. -/
structure Sound (stage : Stage ν) : Prop where
  regular : ∀ timeline ∈ stage.timelines, timeline.skeleton.Regular
  tidy : ∀ timeline ∈ stage.timelines, timeline.Tidy stage.shared
  shared : stage.shared.get? offsetKey = none

namespace Sound

theorem empty : (Stage.empty : Stage ν).Sound :=
  ⟨fun _ member => absurd member List.not_mem_nil, fun _ member => absurd member List.not_mem_nil,
    rfl⟩

variable {stage : Stage ν}

theorem push (sound : stage.Sound) {timeline : Timeline ν} (regular : timeline.skeleton.Regular)
    (tidy : timeline.Tidy stage.shared) : (stage.push timeline).Sound where
  regular := List.forall_mem_append.2 ⟨sound.regular, List.forall_mem_singleton.2 regular⟩
  tidy := List.forall_mem_append.2 ⟨sound.tidy, List.forall_mem_singleton.2 tidy⟩
  shared := sound.shared

theorem modify (sound : stage.Sound) (id : Nat) {change : Timeline ν → Timeline ν}
    (regular : ∀ timeline : Timeline ν, timeline.skeleton.Regular →
      (change timeline).skeleton.Regular)
    (tidy : ∀ timeline : Timeline ν, timeline.Tidy stage.shared →
      (change timeline).Tidy stage.shared) : (stage.modify id change).Sound where
  regular := forall_mem_modify sound.regular id regular
  tidy := forall_mem_modify sound.tidy id tidy
  shared := sound.shared

/-- A change that moves no cursor. -/
theorem modifyStyles (sound : stage.Sound) (id : Nat) {change : Timeline ν → Timeline ν}
    (still : ∀ timeline : Timeline ν, (change timeline).skeleton = timeline.skeleton)
    (tidy : ∀ timeline : Timeline ν, timeline.Tidy stage.shared →
      (change timeline).Tidy stage.shared) : (stage.modify id change).Sound :=
  sound.modify id (fun timeline regular => (still timeline).symm ▸ regular) tidy

/-- A move of a cursor to a time from zero on. -/
theorem modifySeek [LawfulSums ν] (sound : stage.Sound) (id : Nat) {time : Timeline ν → ν}
    (nonneg : ∀ timeline : Timeline ν, timeline.skeleton.Regular →
      Scalar.atMost 0 (time timeline) = true) :
    (stage.modify id fun timeline => timeline.seek (time timeline)).Sound := by
  refine sound.modify id (fun timeline regular => ?_) fun timeline tidy => tidy.seek _
  rw [Timeline.skeleton_seek]
  exact regular.seek (nonneg timeline regular)

/-- Sharing a value disturbs no timeline. -/
theorem share (sound : stage.Sound) {property : String} (free : property ≠ offsetKey)
    (value : Value ν) : Sound { stage with shared := stage.shared.insert property value } where
  regular := sound.regular
  tidy timeline member := by
    refine (sound.tidy timeline member).mono fun other known => ?_
    rw [OrderedMap.contains, OrderedMap.get?_insert]
    split
    · rfl
    · exact known
  shared := by
    show (stage.shared.insert property value).get? offsetKey = none
    rw [OrderedMap.get?_insert, if_neg free, sound.shared]

/-- The timeline with a number is tidy, also if the stage has not given it out. -/
theorem timeline (sound : stage.Sound) (id : Nat) : (stage.timeline id).Tidy stage.shared := by
  unfold Stage.timeline Stage.get?
  cases found : stage.timelines[id]? with
  | none => exact .blank 0 rfl
  | some timeline => exact sound.tidy timeline (List.mem_of_getElem? found)

theorem easeSegment (sound : stage.Sound) (id : Nat) (easing : Option String) :
    (stage.easeSegment id easing).Sound := by
  cases easing with
  | none => exact sound
  | some easing =>
    exact sound.modifyStyles id (fun timeline => timeline.skeleton_easeSegment easing)
      fun timeline tidy => tidy.easeSegment easing

theorem writeEntry (sound : stage.Sound) (id : Nat) (entry : String × Value ν) :
    (stage.writeEntry id entry).Sound := by
  unfold Stage.writeEntry
  split
  · exact sound
  · next free =>
    have there : (stage.shared.insert entry.1 entry.2).contains entry.1 = true := by
      rw [OrderedMap.contains, OrderedMap.get?_insert, if_pos rfl]
      rfl
    exact (sound.share free entry.2).modifyStyles id
      (fun timeline => timeline.skeleton_write entry.1 entry.2 _)
      fun timeline tidy => tidy.write free there entry.2 _

theorem write (sound : stage.Sound) (id : Nat) (styles : Styles ν) (easing : Option String) :
    (stage.write id styles easing).Sound := by
  refine write_induction styles (sound.easeSegment id easing) ?_ ?_
  · exact fun written entry kept => kept.writeEntry id entry
  · exact fun written kept => kept.modifyStyles id Timeline.skeleton_carryWritten
      fun timeline tidy => tidy.carryWritten

/-- No entry of a map without the reserved offset is named like it. -/
theorem ne_of_mem_entries {α : Type} {map : OrderedMap α} (free : map.get? offsetKey = none)
    {entry : String × α} (member : entry ∈ map.entries) : entry.1 ≠ offsetKey := by
  intro same
  have there : map.contains offsetKey = true :=
    (map.contains_iff_mem_keys offsetKey).2 (same ▸ List.mem_map_of_mem member)
  rw [OrderedMap.contains, free] at there
  exact Bool.false_ne_true there

theorem writeEmptyStep (sound : stage.Sound) (id : Nat) (easing : Option String) :
    (stage.writeEmptyStep id easing).Sound := by
  have eased := sound.easeSegment id easing
  have shared : (stage.easeSegment id easing).shared = stage.shared := by
    cases easing <;> rfl
  refine eased.modifyStyles id (fun timeline => ?_) fun timeline tidy => ?_
  · exact foldl_keeps Timeline.skeleton
      (fun (marked : Timeline ν) (entry : String × Value ν) =>
        marked.skeleton_blankOut entry.1 entry.2) _ timeline
  · refine List.foldlRecOn (motive := Timeline.Tidy _) _ _ tidy ?_
    exact fun marked kept entry member => kept.blankOut (ne_of_mem_entries sound.shared member) _

theorem adoptEntry (sound : stage.Sound) (id : Nat) {entry : String × Stamped ν}
    (free : entry.1 ≠ offsetKey) : (stage.adoptEntry id entry).Sound := by
  have there : (stage.shared.insert entry.1 entry.2.value).contains entry.1 = true := by
    rw [OrderedMap.contains, OrderedMap.get?_insert, if_pos rfl]
    rfl
  exact (sound.share free entry.2.value).modifyStyles id
    (fun timeline => timeline.skeleton_adopt entry.1 entry.2)
    fun timeline tidy => tidy.adopt free there entry.2

theorem absorb (sound : stage.Sound) (target source : Nat) :
    (stage.absorb target source).Sound := by
  refine List.foldlRecOn (motive := Sound) _ _ sound ?_
  intro merged kept entry member
  have taken : entry ∈ (stage.timeline source).summary.entries := (List.mem_filter.1 member).1
  exact kept.adoptEntry target (ne_of_mem_entries (sound.timeline source).summary taken)

/-- What a timeline knows, a fork may inherit. -/
theorem fork [LawfulSums ν] (sound : stage.Sound) (parent : Nat) (start : Option ν)
    (inherits : Bool) : (stage.fork parent start inherits).Sound := by
  refine sound.push (.blank _ _) (.blank _ ?_)
  split
  · exact (sound.timeline parent).effective
  · rfl

/-- **Every operation keeps a stage in working order.** -/
theorem perform [LawfulSums ν] (sound : stage.Sound) {operation : Operation ν}
    (onward : operation.Onward) : (stage.perform operation).Sound := by
  cases operation with
  | create start => exact sound.push (.blank start ∅) (.blank start rfl)
  | fork parent start inherits => exact sound.fork parent start inherits
  | forwardFrame id length =>
    exact sound.modifySeek id fun timeline regular =>
      LawfulSums.add_nonneg regular.cursor_nonneg onward
  | forwardTo id time =>
    exact sound.modifySeek id fun _ _ => Scalar.second_atMost_larger time LawfulScalar.zero_proper
  | snapshot id =>
    exact sound.modifyStyles id Timeline.skeleton_snapshot fun timeline tidy => tidy.snapshot
  | write id styles easing => exact sound.write id styles easing
  | writeEmptyStep id easing => exact sound.writeEmptyStep id easing
  | land id styles =>
    exact (sound.write id styles none).modifyStyles id (fun _ => rfl) fun _ tidy => { tidy with }
  | absorb target source => exact sound.absorb target source

theorem run [LawfulSums ν] {operations : List (Operation ν)}
    (onward : ∀ operation ∈ operations, operation.Onward) : (Stage.run operations).Sound := by
  refine List.foldlRecOn (motive := Sound) _ _ .empty ?_
  exact fun reached kept operation member => kept.perform (onward operation member)

end Sound

/-- **Any run leaves every timeline in working order**, and what had been captured at any moment is
still captured in the end. -/
theorem sound_run [LawfulSums ν] (operations : List (Operation ν))
    (onward : ∀ operation ∈ operations, operation.Onward) :
    (run operations).Sound ∧ ∀ earlier later, operations = earlier ++ later →
      (run earlier).Retains (run operations) := by
  refine ⟨Sound.run onward, fun earlier later split => ?_⟩
  have continued : run operations = later.foldl perform (run earlier) := by
    rw [run, split, List.foldl_append]
    rfl
  rw [continued]
  exact Retains.performAll later (run earlier)

/-- A run with an empty step, a merge, and moves back to keyframes that are there already. -/
def mixedRun : List (Operation Binary64) :=
  [.create 0, .write 0 (.ofList [("color", .text "red"), ("offset", .number 1)]) none,
    .forwardFrame 0 1, .writeEmptyStep 0 (some "linear"), .fork 0 none true, .forwardTo 1 (1 + 1),
    .write 1 (.ofList [("left", .text "3px")]) none, .forwardTo 1 (0 - 1), .snapshot 1,
    .absorb 0 1, .forwardFrame 0 0, .land 0 (.ofList [("color", .text "blue")])]

theorem sound_mixedRun :
    (∀ operation ∈ mixedRun, operation.Onward) ∧
      (run mixedRun).timelines.map (fun timeline => timeline.times.length) = [2, 2] ∧
      (run mixedRun).Sound ∧
        ∀ earlier later, mixedRun = earlier ++ later → (run earlier).Retains (run mixedRun) := by
  have forth : Scalar.atMost 0 (1 : Binary64) = true := by decide +kernel
  have still : Scalar.atMost 0 (0 : Binary64) = true := by decide +kernel
  have onward : ∀ operation ∈ mixedRun, operation.Onward := by
    simp [mixedRun, Operation.Onward, forth, still]
  exact ⟨onward, by decide +kernel, sound_run mixedRun onward⟩

end Stage

end Storyboard
