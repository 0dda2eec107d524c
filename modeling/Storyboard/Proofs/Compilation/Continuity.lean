import Storyboard.Proofs.Compilation.Applications
import Storyboard.Proofs.Compilation.Handover
import Storyboard.Proofs.Compilation.Replay

/-!
# Sequential continuity

Without groups a walk writes one thing after another, and a property that starts to move starts from
where it was left: the first keyframe of a timeline shows of it the value that was written last
before, on whichever timeline, and the computed style if there was no write
(`Tree.compile_continues`).

Three tables could give that value. What the timeline inherited, if it is a fork; what all timelines
share, otherwise; and the shared value may have been carried over when a fork was folded back. They
agree: a value that is carried over repeats the one written last (`Traversal.repeats_ledger`), a
timeline that has written a property has written the shared value (`Upkeep.succession`), and so a
fork inherits what is shared when it is opened (`Traversal.continuous_visit`).
-/

set_option autoImplicit false

namespace Storyboard

variable {ν : Type}

/-! ## Carried values repeat written ones -/

/-- The value that was written last. -/
def lastWritten (ledger : List (LedgerEntry ν)) : Option (Value ν) :=
  (writtenValues ledger).getLast?.map Stamped.value

/-- A value that is carried over is the one that all timelines share at that moment. -/
def Repeats (ledger : List (LedgerEntry ν)) : Prop :=
  ∀ earlier entry later, ledger = earlier ++ entry :: later → entry.carried = true →
    sharedValue earlier = some entry.stamped.value

namespace Repeats

variable {ledger more : List (LedgerEntry ν)}

theorem of_written (written : ∀ entry ∈ ledger, entry.carried = false) : Repeats ledger := by
  rintro earlier entry later rfl carried
  have fresh := written entry (List.mem_append_right _ List.mem_cons_self)
  exact absurd (carried.symm.trans fresh) Bool.noConfusion

theorem nil : Repeats ([] : List (LedgerEntry ν)) :=
  of_written fun _ member => absurd member List.not_mem_nil

theorem append (earlier : Repeats ledger) (later : Repeats more) : Repeats (ledger ++ more) := by
  intro before entry after split carried
  rcases List.append_eq_append_iff.1 split with ⟨passed, rfl, rest⟩ | ⟨passed, whole, rest⟩
  · have repeated := later passed entry after rest carried
    rw [sharedValue_append, repeated]
    rfl
  · cases passed with
    | nil =>
      have repeated := later [] entry after rest.symm carried
      exact nomatch repeated
    | cons first passed =>
      obtain ⟨rfl, _⟩ := List.cons_eq_cons.1 rest
      exact earlier before entry passed whole carried

theorem of_append (both : Repeats (ledger ++ more)) : Repeats ledger := by
  rintro earlier entry later rfl carried
  exact both earlier entry (later ++ more) (by rw [List.append_assoc, List.cons_append]) carried

/-- The shared value may be carried over. -/
theorem carry (repeated : Repeats ledger) {id : Nat} {stamped : Stamped ν}
    (shared : sharedValue ledger = some stamped.value) :
    Repeats (ledger ++ [⟨id, stamped, true⟩]) := by
  intro earlier entry later split carried
  rcases List.eq_nil_or_concat later with rfl | ⟨later, last, rfl⟩
  · obtain ⟨rfl, same⟩ := List.append_inj' split rfl
    rw [← List.head_eq_of_cons_eq same]
    exact shared
  · rw [List.concat_eq_append, ← List.cons_append, ← List.append_assoc] at split
    obtain ⟨whole, _⟩ := List.append_inj' split rfl
    exact repeated earlier entry later whole carried

/-- What all timelines share is what was written last. -/
theorem sharedValue_eq (repeated : Repeats ledger) : sharedValue ledger = lastWritten ledger := by
  induction ledger using List.reverseRecOn with
  | nil => rfl
  | append_singleton ledger last ih =>
    have before := ih repeated.of_append
    rw [lastWritten, writtenValues_append]
    cases carried : last.carried with
    | true =>
      have same := repeated ledger last [] rfl carried
      have unwritten : writtenValues [last] = [] :=
        writtenValues_of_carried fun entry member => List.mem_singleton.1 member ▸ carried
      rw [unwritten, List.append_nil, ← lastWritten, ← before, same, sharedValue_append]
      rfl
    | false =>
      have written : writtenValues [last] = [last.stamped] := by simp [writtenValues, carried]
      rw [written, List.getLast?_append, sharedValue_append]
      rfl

end Repeats

variable [Scalar ν]

namespace Traversal

/-- The steps of a keyframe list are written on one timeline. -/
theorem own_stepsLedger (property : String) (scope : Params ν) (duration : ν) :
    ∀ (steps : List (StyleStep ν × ν)) (walk : Traversal ν),
      ∀ entry ∈ walk.stepsLedger property scope duration steps,
        entry.timeline = walk.current ∧ entry.carried = false
  | [], _, _, member => absurd member List.not_mem_nil
  | (step, offset) :: rest, walk, entry, member => by
    rcases List.mem_append.1 member with first | later
    · have own := own_writeLedger entry first
      exact own
    · have own := own_stepsLedger property scope duration rest _ entry later
      exact own

/-- Behind its steps the fork of a keyframe list holds what they wrote last. -/
theorem summary_ranKeyframes {property : String} (free : property ≠ offsetKey)
    (walk : Traversal ν) (scope : Params ν) (steps : List (StyleStep ν × ν))
    (timings : Timings ν) :
    ((writeKeyframes scope timings.duration steps
        (walk.forkKeyframes timings)).stage.holding property).summary walk.stage.size =
      ((walk.forkKeyframes timings).stepsLedger property scope timings.duration
        steps).getLast?.map LedgerEntry.stamped := by
  have forked := course_forkKeyframes property walk timings
  have ran := forked.silent_trans
    (course_writeKeyframes free scope timings.duration steps forked.placed)
  have own : ((walk.forkKeyframes timings).stepsLedger property scope timings.duration
      steps).filter (fun entry => entry.timeline == walk.stage.size) =
        (walk.forkKeyframes timings).stepsLedger property scope timings.duration steps :=
    List.filter_eq_self.2 fun entry member => beq_iff_eq.2 (own_stepsLedger _ _ _ _ _ _ member).1
  rw [ran.holding, Holding.summary_post, own, Stage.summary_holding_of_size_le (Nat.le_refl _),
    Option.or_none]

theorem current_writeKeyframes (scope : Params ν) (duration : ν) :
    ∀ (steps : List (StyleStep ν × ν)) (walk : Traversal ν),
      (writeKeyframes scope duration steps walk).current = walk.current
  | [], _ => rfl
  | (_, _) :: rest, _ => current_writeKeyframes scope duration rest _

/-- Folding the fork of a keyframe list back carries the value that was written last. -/
theorem repeats_keyframesLedger {property : String} (free : property ≠ offsetKey)
    (walk : Traversal ν) (scope : Params ν) (steps : List (StyleStep ν)) (timings : Timings ν) :
    Repeats (walk.keyframesLedger property scope steps timings) := by
  have held := summary_ranKeyframes free walk scope (steps.zip (keyframeOffsets steps)) timings
  have written := Repeats.of_written fun entry member =>
    (own_stepsLedger property scope timings.duration (steps.zip (keyframeOffsets steps))
      (walk.forkKeyframes timings) entry member).2
  simp only [keyframesLedger]
  rw [current_writeKeyframes]
  have there : (walk.forkKeyframes timings).current = walk.stage.size := rfl
  rw [there, Holding.carry, held]
  cases last : ((walk.forkKeyframes timings).stepsLedger property scope timings.duration
      (steps.zip (keyframeOffsets steps))).getLast? with
  | none =>
    rw [Option.map_none, List.append_nil]
    exact written
  | some entry =>
    rw [Option.map_some]
    dsimp only
    split
    · exact written.carry (by rw [sharedValue, last, Option.map_some])
    · rw [List.append_nil]
      exact written

theorem repeats_animateLedger {property : String} (free : property ≠ offsetKey)
    (walk : Traversal ν) (scope : Params ν) (timing : Timing ν) (payload : Option (Payload ν)) :
    Repeats (walk.animateLedger property scope timing payload) := by
  cases payload with
  | none => exact .nil
  | some payload =>
    cases payload with
    | keyframes steps => exact repeats_keyframesLedger free _ scope steps _
    | style step => exact .of_written fun entry member => (own_writeLedger entry member).2

mutual

/-- **A walk without groups carries over nothing but what was written last.** -/
theorem repeats_ledger {property : String} (free : property ≠ offsetKey) (settings : Settings ν) :
    ∀ (tree : Tree ν), (∀ node ∈ tree.nodes, node.kind ≠ .group) →
      ∀ (scope : Params ν) (walk : Traversal ν), Repeats (ledger property settings scope tree walk)
  | .sequence steps, single, scope, walk =>
    repeats_sequenceLedger free settings steps (List.forall_mem_cons.1 single).2 scope _
  | .group _, single, _, _ => absurd rfl (List.forall_mem_cons.1 single).1
  | .animate timing payload, _, scope, walk => repeats_animateLedger free walk scope timing payload
  | .style step, _, scope, walk => .of_written fun entry member => (own_writeLedger entry member).2
  | .reference animation _, single, _, walk => by
    rw [ledger]
    exact repeats_ledger free settings animation (List.forall_mem_cons.1 single).2 _ walk
  | .animateRef animation _ _, single, _, walk => by
    rw [ledger]
    exact repeats_ledger free settings animation (List.forall_mem_cons.1 single).2 _ walk
  | .state .., _, _, _ | .transition .., _, _, _ | .keyframes .., _, _, _ | .trigger .., _, _, _
  | .animateChild .., _, _, _ | .query .., _, _, _ | .stagger .., _, _, _ => .nil

theorem repeats_sequenceLedger {property : String} (free : property ≠ offsetKey)
    (settings : Settings ν) :
    ∀ (steps : List (Tree ν)), (∀ node ∈ Tree.allNodes steps, node.kind ≠ .group) →
      ∀ (scope : Params ν) (walk : Traversal ν),
        Repeats (sequenceLedger property settings scope steps walk)
  | [], _, _, _ => .nil
  | step :: rest, single, scope, walk => by
    obtain ⟨first, others⟩ := Tree.forall_mem_allNodes_cons.1 single
    exact (repeats_ledger free settings step first scope walk).append
      (repeats_sequenceLedger free settings rest others scope _)

end

end Traversal

/-! ## What was inherited stays as it is -/

theorem Timeline.inherited_write (timeline : Timeline ν) (property : String) (value : Value ν)
    (known : Option (Value ν)) :
    (timeline.write property value known).inherited = timeline.inherited := by
  simp only [write, adopt, editCurrent, editFrame, capture]
  split <;> rfl

namespace Stage

/-- What the timelines inherited, in the order of their numbers. -/
def inheritances (stage : Stage ν) : List (Styles ν) :=
  stage.timelines.map Timeline.inherited

variable (stage : Stage ν) (id : Nat)

omit [Scalar ν] in
theorem inheritances_modify {change : Timeline ν → Timeline ν}
    (kept : ∀ timeline, (change timeline).inherited = timeline.inherited) :
    (stage.modify id change).inheritances = stage.inheritances :=
  map_modify_of_kept Timeline.inherited kept id stage.timelines

omit [Scalar ν] in
theorem inheritances_easeSegment (easing : Option String) :
    (stage.easeSegment id easing).inheritances = stage.inheritances := by
  cases easing with
  | none => rfl
  | some easing => exact stage.inheritances_modify id fun _ => rfl

theorem inheritances_seek (time : Timeline ν → ν) :
    (stage.modify id fun timeline => timeline.seek (time timeline)).inheritances =
      stage.inheritances := by
  refine stage.inheritances_modify id fun timeline => ?_
  unfold Timeline.seek
  split <;> rfl

theorem inheritances_write (styles : Styles ν) (easing : Option String) :
    (stage.write id styles easing).inheritances = stage.inheritances := by
  have entry : ∀ (written : Stage ν) entry,
      (written.writeEntry id entry).inheritances = written.inheritances := by
    intro written entry
    unfold writeEntry
    split
    · rfl
    · exact written.inheritances_modify id fun timeline => timeline.inherited_write _ _ _
  have entries := (foldl_keeps inheritances entry styles.entries
    (stage.easeSegment id easing)).trans (stage.inheritances_easeSegment id easing)
  refine (inheritances_modify _ id fun timeline => ?_).trans entries
  rfl

omit [Scalar ν] in
theorem inheritances_writeEmptyStep (easing : Option String) :
    (stage.writeEmptyStep id easing).inheritances = stage.inheritances := by
  refine (inheritances_modify _ id fun timeline => ?_).trans
    (stage.inheritances_easeSegment id easing)
  refine foldl_keeps Timeline.inherited (fun marked entry => ?_) _ timeline
  simp only [Timeline.blankOut, Timeline.editCurrent, Timeline.editFrame, Timeline.capture]
  split <;> rfl

theorem inheritances_absorb (source : Nat) :
    (stage.absorb id source).inheritances = stage.inheritances := by
  refine foldl_keeps inheritances (fun merged entry => ?_) _ stage
  exact merged.inheritances_modify id fun _ => rfl

/-- Where no timeline changes what it inherited, each has inherited the same. -/
theorem inherited_of_inheritances {first second : Stage ν}
    (same : first.inheritances = second.inheritances) (id : Nat) :
    (first.timeline id).inherited = (second.timeline id).inherited := by
  have listed : ∀ stage : Stage ν,
      (stage.timeline id).inherited = (stage.inheritances[id]?).getD ∅ := by
    intro stage
    simp only [timeline, get?, inheritances, List.getElem?_map]
    cases stage.timelines[id]? <;> rfl
  rw [listed, listed, same]

end Stage

namespace Traversal

variable (walk : Traversal ν)

theorem inheritances_awaitPayload (scope : Params ν) (timing : Timing ν) :
    (walk.awaitPayload scope timing).stage.inheritances = walk.stage.inheritances := by
  unfold awaitPayload wait
  split
  · have passed := walk.stage.inheritances_seek walk.current fun timeline =>
      Scalar.larger (timeline.cursor + (timing.resolve scope).1.delay) 0
    refine (Stage.inheritances_modify _ _ fun timeline => ?_).trans passed
    rfl
  · rfl

theorem inheritances_enterSequence (settings : Settings ν) :
    (walk.enterSequence settings).stage.inheritances = walk.stage.inheritances := by
  unfold enterSequence
  split
  · refine walk.stage.inheritances_modify walk.current fun timeline => ?_
    simp only [Timeline.snapshot, Timeline.editCurrent, Timeline.editFrame, Timeline.forwardFrame,
      Timeline.seek]
    split <;> rfl
  · rfl

theorem inheritances_writeBareStyle (settings : Settings ν) (scope : Params ν)
    (step : StyleStep ν) :
    (walk.writeBareStyle settings scope step).stage.inheritances = walk.stage.inheritances := by
  refine (Stage.inheritances_write _ _ _ _).trans ?_
  split
  · exact Stage.inheritances_seek _ _ fun timeline => timeline.cursor + settings.frameLength
  · rfl

theorem inheritances_writeKeyframes (scope : Params ν) (duration : ν) :
    ∀ (steps : List (StyleStep ν × ν)) (walk : Traversal ν),
      (writeKeyframes scope duration steps walk).stage.inheritances = walk.stage.inheritances
  | [], _ => rfl
  | (step, offset) :: rest, walk => by
    have moved := walk.stage.inheritances_seek walk.current
      fun _ => Scalar.larger (offset * duration) 0
    exact (inheritances_writeKeyframes scope duration rest _).trans
      ((Stage.inheritances_write _ _ _ _).trans moved)

/-- A timeline that the walk goes on with has inherited nothing. -/
theorem inherited_continueAt (time : Option ν) (id : Nat) :
    ((walk.continueAt time).stage.timeline id).inherited =
      if id = walk.stage.size then ∅ else (walk.stage.timeline id).inherited := by
  refine (congrArg Timeline.inherited (Stage.timeline_push walk.stage _ id)).trans ?_
  split <;> rfl

/-- The fork of a keyframe list inherits what the timeline knows that it comes from. -/
theorem inherited_ranKeyframes (scope : Params ν) (steps : List (StyleStep ν × ν))
    (timings : Timings ν) (id : Nat) :
    ((writeKeyframes scope timings.duration steps
        (walk.forkKeyframes timings)).stage.timeline id).inherited =
      if id = walk.stage.size then (walk.stage.timeline walk.current).effective
      else (walk.stage.timeline id).inherited := by
  have eased : (walk.forkKeyframes timings).stage.inheritances = walk.branch.stage.inheritances :=
    Stage.inheritances_modify _ _ fun _ => rfl
  have ran := (inheritances_writeKeyframes scope timings.duration steps _).trans eased
  rw [Stage.inherited_of_inheritances ran]
  refine (congrArg Timeline.inherited (Stage.timeline_push walk.stage _ id)).trans ?_
  split <;> rfl

end Traversal

/-! ## Inheriting what is shared -/

/-- What a timeline inherited makes no difference to the value that a property had on it before its
first write, if there is one. -/
def Redundant (ledger : List (LedgerEntry ν)) (id : Nat) (inherited : Option (Value ν)) : Prop :=
  ownWrites ledger id = [] ∨ valueBefore ledger id inherited = valueBefore ledger id none

omit [Scalar ν] in
/-- What was entered before the first own write. -/
theorem entered_before {ledger : List (LedgerEntry ν)} {id : Nat} {first : LedgerEntry ν}
    (foreign : ∀ entry ∈ ledger, entry.isOwn id = false) (own : first.isOwn id = true)
    (later : List (LedgerEntry ν)) :
    (ledger ++ first :: later).takeWhile (fun entry => !entry.isOwn id) = ledger := by
  rw [List.takeWhile_append_of_pos fun entry member => by rw [foreign entry member]; rfl,
    List.takeWhile_cons, own]
  exact List.append_nil ledger

namespace Redundant

variable {ledger more : List (LedgerEntry ν)} {id : Nat} {inherited : Option (Value ν)}

omit [Scalar ν] in
theorem of_none (ledger : List (LedgerEntry ν)) (id : Nat) : Redundant ledger id none :=
  .inr rfl

omit [Scalar ν] in
/-- What is done to other timelines does not matter. -/
theorem append (redundant : Redundant ledger id inherited)
    (foreign : ∀ entry ∈ more, entry.timeline = id → entry.carried) :
    Redundant (ledger ++ more) id inherited := by
  unfold Redundant
  rw [ownWrites_append_foreign foreign]
  by_cases written : ownWrites ledger id = []
  · exact .inl written
  · refine .inr ?_
    rw [valueBefore_append written, valueBefore_append written]
    exact redundant.resolve_left written

omit [Scalar ν] in
/-- A timeline that inherits the shared value, and writes at once, could do without it. -/
theorem of_shared (unopened : ∀ entry ∈ ledger, entry.timeline ≠ id)
    (known : inherited = none ∨ inherited = sharedValue ledger)
    (own : ∀ entry ∈ more, entry.isOwn id = true) : Redundant (ledger ++ more) id inherited := by
  have foreign : ∀ entry ∈ ledger, entry.isOwn id = false :=
    fun entry member => by rw [LedgerEntry.isOwn, beq_false_of_ne (unopened entry member),
      Bool.false_and]
  cases more with
  | nil =>
    rw [List.append_nil]
    exact .inl (ownWrites_eq_nil_iff.2 foreign)
  | cons first rest =>
    refine .inr ?_
    rw [valueBefore, valueBefore, entered_before foreign (own first List.mem_cons_self) rest]
    rcases known with rfl | rfl
    · rfl
    · rw [Option.or_self, Option.none_or]

end Redundant

/-! ## Writes in succession -/

/-- A timeline has written a property in the order of time, up to now, and if it has written it at
all then it has written the shared value. -/
structure Timeline.Strand.Succeeds (ledger : List (LedgerEntry Rat)) (id : Nat)
    (strand : Strand Rat) : Prop where
  rising : (ownWrites ledger id).Pairwise fun earlier later => earlier.time ≤ later.time
  past : ∀ write ∈ ownWrites ledger id, write.time ≤ strand.now
  recent : strand.written = none ∨ strand.written = sharedValue ledger

namespace Timeline.Strand.Succeeds

variable {ledger : List (LedgerEntry Rat)} {id : Nat} {strand : Strand Rat}

theorem blank (start : Rat) (inherited : Option (Value Rat))
    (unopened : ∀ entry ∈ ledger, entry.timeline ≠ id) :
    (Strand.blank start inherited).Succeeds ledger id := by
  have unwritten : ownWrites ledger id = [] :=
    ownWrites_eq_nil fun entry member there => absurd there (unopened entry member)
  refine ⟨?_, ?_, .inl rfl⟩
  · rw [unwritten]
    exact List.Pairwise.nil
  · rw [unwritten]
    exact fun write member => absurd member List.not_mem_nil

theorem edit (succeeds : strand.Succeeds ledger id)
    (change : Option (Value Rat) → Option (Value Rat)) : (strand.edit change).Succeeds ledger id :=
  ⟨succeeds.rising, succeeds.past, succeeds.recent⟩

theorem seek (succeeds : strand.Succeeds ledger id) {time : Rat} (onward : strand.cursor ≤ time) :
    (strand.seek time).Succeeds ledger id := by
  have past : ∀ write ∈ ownWrites ledger id, write.time ≤ strand.start + time :=
    fun write member => (succeeds.past write member).trans (add_le_add_right onward _)
  unfold Strand.seek
  split
  · exact ⟨succeeds.rising, past, succeeds.recent⟩
  · exact ⟨succeeds.rising, past, succeeds.recent⟩

theorem capture (succeeds : strand.Succeeds ledger id) (known : Option (Value Rat)) :
    (strand.capture known).Succeeds ledger id := by
  unfold Strand.capture
  split
  · exact succeeds
  · exact ⟨succeeds.rising, succeeds.past, succeeds.recent⟩

theorem write (succeeds : strand.Succeeds ledger id) (value : Value Rat)
    (known : Option (Value Rat)) :
    (strand.write value known).Succeeds (ledger ++ [⟨id, ⟨strand.now, value⟩, false⟩]) id := by
  have now : (strand.write value known).now = strand.now :=
    congrArg₂ (· + ·) (strand.start_capture _) (strand.cursor_capture _)
  refine ⟨?_, ?_, .inr ?_⟩
  · rw [ownWrites_concat]
    refine List.pairwise_append.2 ⟨succeeds.rising, List.pairwise_singleton _ _, ?_⟩
    intro earlier member last single
    rw [List.mem_singleton.1 single]
    exact succeeds.past earlier member
  · rw [ownWrites_concat, now]
    intro write member
    rcases List.mem_append.1 member with earlier | last
    · exact succeeds.past write earlier
    · rw [List.mem_singleton.1 last]
  · rw [sharedValue_append]
    rfl

theorem emptyStep (succeeds : strand.Succeeds ledger id) (known : Option (Value Rat)) :
    (strand.emptyStep known).Succeeds ledger id := by
  cases known with
  | none => exact succeeds
  | some known => exact (succeeds.capture (some known)).edit fun _ => some Value.automatic

end Timeline.Strand.Succeeds

/-- Every timeline that was left has written in the order of time. -/
def Upkeep.succession : Upkeep Rat where
  left ledger id _ := (ownWrites ledger id).Pairwise fun earlier later => earlier.time ≤ later.time
  ready ledger id strand := strand.Succeeds ledger id
  moved ledger id strand := strand.Succeeds ledger id
  onward earlier later := earlier ≤ later
  admits node := node.OffsetsRise

theorem Upkeep.lawful_succession {settings : Settings Rat} (frame : 0 ≤ settings.frameLength) :
    Upkeep.succession.Lawful settings where
  left_of_ready succeeds := succeeds.rising
  moved_of_ready succeeds := succeeds
  left_of_shown _ rising := rising
  left_append foreign rising := by
    simp only [succession] at rising ⊢
    rwa [ownWrites_append_foreign foreign]
  blank start inherited unopened := .blank start inherited unopened
  seek succeeds onward := succeeds.seek onward
  write value succeeds := succeeds.write value _
  carry succeeds := succeeds.edit _
  snapshot succeeds := succeeds.edit _
  emptyStep _ _ succeeds := succeeds.emptyStep _
  frame := (Upkeep.lawful_replay frame).frame
  delay := (Upkeep.lawful_replay frame).delay
  duration := (Upkeep.lawful_replay frame).duration
  keyframes timing steps scope rise :=
    (Upkeep.lawful_replay frame).keyframes timing steps scope ⟨trivial, rise⟩

/-! ## The walk -/

namespace Traversal

/-- Between two steps, the timeline that the walk is on has inherited nothing, and what others
inherited makes no difference. -/
structure Continuous (property : String) (ledger : List (LedgerEntry ν)) (walk : Traversal ν) :
    Prop where
  fresh : (walk.stage.timeline walk.current).inherited.get? property = none
  redundant : ∀ id, Redundant ledger id ((walk.stage.timeline id).inherited.get? property)

namespace Continuous

variable {property : String} {ledger made : List (LedgerEntry ν)} {walk after : Traversal ν}

theorem remember (continuous : walk.Continuous property ledger) (kind : NodeKind) :
    (walk.after kind).Continuous property ledger :=
  ⟨continuous.fresh, continuous.redundant⟩

/-- What happens on the current timeline alone. -/
theorem stay (continuous : walk.Continuous property ledger)
    (same : after.stage.inheritances = walk.stage.inheritances)
    (stays : after.current = walk.current)
    (own : ∀ entry ∈ made, entry.timeline = walk.current) :
    after.Continuous property (ledger ++ made) where
  fresh := by
    rw [Stage.inherited_of_inheritances same, stays]
    exact continuous.fresh
  redundant := by
    intro id
    rw [Stage.inherited_of_inheritances same]
    by_cases here : id = walk.current
    · rw [here, continuous.fresh]
      exact .of_none _ _
    · exact (continuous.redundant id).append fun entry member there =>
        absurd (there.symm.trans (own entry member)) here

/-- Nothing is written. -/
theorem still (continuous : walk.Continuous property ledger)
    (same : after.stage.inheritances = walk.stage.inheritances)
    (stays : after.current = walk.current) : after.Continuous property ledger := by
  have stayed : after.Continuous property (ledger ++ []) :=
    continuous.stay same stays fun _ member => absurd member List.not_mem_nil
  rwa [List.append_nil] at stayed

theorem continueAt (redundant : ∀ id, Redundant ledger id
      ((walk.stage.timeline id).inherited.get? property)) (time : Option ν) :
    (walk.continueAt time).Continuous property ledger where
  fresh := by
    have current : (walk.continueAt time).current = walk.stage.size := rfl
    rw [inherited_continueAt, current, if_pos rfl]
    rfl
  redundant := by
    intro id
    rw [inherited_continueAt]
    split
    · exact .of_none _ _
    · exact redundant id

/-- A keyframe list runs on a fork of a timeline that has inherited nothing, and has written the
shared value if any. -/
theorem runKeyframes (continuous : walk.Continuous property ledger)
    (opened : ∀ entry ∈ ledger, entry.timeline < walk.stage.size)
    (recent : (walk.stage.timeline walk.current).written.get? property = none ∨
      (walk.stage.timeline walk.current).written.get? property = sharedValue ledger)
    (scope : Params ν) (steps : List (StyleStep ν)) (timings : Timings ν) :
    (walk.runKeyframes scope steps timings).Continuous property
      (ledger ++ walk.keyframesLedger property scope steps timings) := by
  refine continueAt (fun id => ?_) _
  have absorbed := Stage.inheritances_absorb (writeKeyframes scope timings.duration
    (steps.zip (keyframeOffsets steps)) (walk.forkKeyframes timings)).stage walk.current
      (writeKeyframes scope timings.duration (steps.zip (keyframeOffsets steps))
        (walk.forkKeyframes timings)).current
  refine (congrArg (fun styles => Redundant _ id (styles.get? property))
    (Stage.inherited_of_inheritances absorbed id)).mpr ?_
  have own := own_stepsLedger property scope timings.duration (steps.zip (keyframeOffsets steps))
    (walk.forkKeyframes timings)
  rw [inherited_ranKeyframes, keyframesLedger, ← List.append_assoc]
  refine Redundant.append ?_ fun entry member _ => Holding.carried_of_mem_carry entry member
  split
  · next forked =>
    subst forked
    refine .of_shared (fun entry member => Nat.ne_of_lt (opened entry member)) ?_
      fun entry member => ?_
    · rw [Timeline.effective, OrderedMap.get?_overlay, continuous.fresh, Option.or_none]
      exact recent
    · obtain ⟨there, written⟩ := own entry member
      exact Bool.and_eq_true_iff.2 ⟨beq_iff_eq.2 there, by rw [written]; rfl⟩
  · next apart =>
    by_cases here : id = walk.current
    · rw [here, continuous.fresh]
      exact .of_none _ _
    · exact (continuous.redundant id).append fun entry member there =>
        absurd (there.symm.trans (own entry member).1) apart

end Continuous

section Visits

variable {settings : Settings Rat} {property : String}

/-- An animated step leaves the walk on a timeline that has inherited nothing. -/
theorem continuous_runAnimate (frame : 0 ≤ settings.frameLength)
    {ledger : List (LedgerEntry Rat)} {walk : Traversal Rat}
    (tended : walk.Tended Upkeep.succession Upkeep.succession.ready property ledger)
    (continuous : walk.Continuous property ledger) (scope : Params Rat) (timing : Timing Rat)
    (payload : Option (Payload Rat)) :
    (walk.runAnimate scope timing payload).Continuous property
      (ledger ++ walk.animateLedger property scope timing payload) := by
  have waited := continuous.still (walk.inheritances_awaitPayload scope timing)
    (current_awaitPayload scope timing walk)
  have passed := (walk.awaitPayload scope timing).stage.inheritances_seek
    (walk.awaitPayload scope timing).current
      fun timeline => Scalar.larger (timeline.cursor + (timing.resolve scope).1.duration) 0
  cases payload with
  | none =>
    rw [runAnimate_empty, animateLedger, List.append_nil]
    exact waited.still ((Stage.inheritances_writeEmptyStep _ _ _).trans passed) rfl
  | some payload =>
    cases payload with
    | style step =>
      rw [runAnimate_style]
      refine waited.stay ((Stage.inheritances_write _ _ _ _).trans passed) rfl ?_
      intro entry member
      have own := own_writeLedger entry member
      exact own.1
    | keyframes steps =>
      rw [runAnimate_keyframes]
      have ready := tended_awaitPayload (Upkeep.lawful_succession frame) tended scope timing
      exact waited.runKeyframes ready.accounted.opened ready.here.recent scope steps _

mutual

/-- **Without groups, what a timeline inherits is what all timelines share.** -/
theorem continuous_visit (frame : 0 ≤ settings.frameLength) (free : property ≠ offsetKey)
    (unreserved : property ≠ easingKey) :
    ∀ (tree : Tree Rat), (∀ node ∈ tree.nodes, node.kind ≠ .group) →
      (∀ node ∈ tree.nodes, node.OffsetsRise) →
        ∀ (scope : Params Rat) {ledger : List (LedgerEntry Rat)} {walk : Traversal Rat},
          walk.Tended Upkeep.succession Upkeep.succession.ready property ledger →
            walk.Continuous property ledger →
              (visit settings scope tree walk).Continuous property
                (ledger ++ Traversal.ledger property settings scope tree walk)
  | .sequence steps, single, rise, scope, ledger, walk, tended, continuous => by
    have stays : (walk.enterSequence settings).current = walk.current := by
      unfold enterSequence
      split <;> rfl
    have visited := continuous_visitSteps frame free unreserved steps
      (List.forall_mem_cons.1 single).2 (List.forall_mem_cons.1 rise).2 scope
      (tended_enterSequence (Upkeep.lawful_succession frame) tended)
      (continuous.still (walk.inheritances_enterSequence settings) stays)
    simp only [visit, Traversal.ledger]
    split
    · have opened := Continuous.continueAt visited.redundant none
      exact opened.remember .sequence
    · exact visited.remember .sequence
  | .group _, single, _, _, _, _, _, _ => absurd rfl (List.forall_mem_cons.1 single).1
  | .animate timing payload, _, _, scope, _, _, tended, continuous =>
    (continuous_runAnimate frame tended continuous scope timing payload).remember .animate
  | .style step, _, _, scope, ledger, walk, _, continuous => by
    have stays : (walk.approachStyle settings).current = walk.current := by
      unfold approachStyle
      split <;> rfl
    have wrote : (walk.writeBareStyle settings scope step).Continuous property
        (ledger ++ (walk.approachStyle settings).writeLedger property
          (step.fill scope).styles) := by
      refine continuous.stay (walk.inheritances_writeBareStyle settings scope step) stays ?_
      intro entry member
      exact (own_writeLedger entry member).1.trans stays
    exact wrote.remember .style
  | .reference animation defaults, single, rise, scope, _, _, tended, continuous => by
    have visited := continuous_visit frame free unreserved animation
      (List.forall_mem_cons.1 single).2 (List.forall_mem_cons.1 rise).2
      (referenceScope defaults scope) tended continuous
    simp only [visit, Traversal.ledger]
    exact visited.remember .reference
  | .animateRef animation defaults overrides, single, rise, scope, _, _, tended, continuous => by
    have visited := continuous_visit frame free unreserved animation
      (List.forall_mem_cons.1 single).2 (List.forall_mem_cons.1 rise).2
      (invocationScope defaults scope overrides) tended continuous
    simp only [visit, Traversal.ledger]
    exact visited.remember .animateRef
  | .state .., _, _, _, _, _, _, continuous | .transition .., _, _, _, _, _, _, continuous
  | .keyframes .., _, _, _, _, _, _, continuous | .trigger .., _, _, _, _, _, _, continuous
  | .animateChild .., _, _, _, _, _, _, continuous | .query .., _, _, _, _, _, _, continuous
  | .stagger .., _, _, _, _, _, _, continuous => by
    simp only [Traversal.ledger, List.append_nil]
    exact continuous.remember _

theorem continuous_visitSteps (frame : 0 ≤ settings.frameLength) (free : property ≠ offsetKey)
    (unreserved : property ≠ easingKey) :
    ∀ (steps : List (Tree Rat)), (∀ node ∈ Tree.allNodes steps, node.kind ≠ .group) →
      (∀ node ∈ Tree.allNodes steps, node.OffsetsRise) →
        ∀ (scope : Params Rat) {ledger : List (LedgerEntry Rat)} {walk : Traversal Rat},
          walk.Tended Upkeep.succession Upkeep.succession.ready property ledger →
            walk.Continuous property ledger →
              (visitSteps settings scope steps walk).Continuous property
                (ledger ++ sequenceLedger property settings scope steps walk)
  | [], _, _, _, ledger, _, _, continuous => by
    rw [sequenceLedger, List.append_nil]
    exact continuous
  | step :: rest, single, rise, scope, ledger, walk, tended, continuous => by
    obtain ⟨first, others⟩ := Tree.forall_mem_allNodes_cons.1 single
    obtain ⟨rising, further⟩ := Tree.forall_mem_allNodes_cons.1 rise
    have visited := continuous_visit frame free unreserved step first rising scope tended continuous
    have next := tended_visit (Upkeep.lawful_succession frame) free unreserved step rising scope
      tended
    have followed := continuous_visitSteps frame free unreserved rest others further scope next
      visited
    rw [List.append_assoc] at followed
    rw [visitSteps, sequenceLedger]
    exact followed

end

end Visits

end Traversal

/-! ## The compiled animation -/

section Compilations

variable {tree : Tree Rat} {settings : Settings Rat} {starting destination : Styles Rat}
  {scope : Params Rat} {property : String}

theorem Tree.repeats_compileLedger (single : ∀ node ∈ tree.nodes, node.kind ≠ .group)
    (free : property ≠ offsetKey) :
    Repeats (tree.compileLedger property settings starting destination scope) := by
  have written : ∀ (walk : Traversal Rat) styles, Repeats (walk.writeLedger property styles) :=
    fun walk styles => .of_written fun entry member => (Traversal.own_writeLedger entry member).2
  exact ((written _ starting).append (Traversal.repeats_ledger free settings tree single scope
    _)).append (written _ destination)

/-- The walk starts on a timeline that has inherited nothing. -/
theorem Traversal.continuous_start (starting : Styles Rat) :
    (Traversal.start starting).Continuous property
      (Traversal.beginning.writeLedger property starting) := by
  have same : (Traversal.start starting).stage.inheritances = [∅] :=
    Stage.inheritances_write _ _ _ _
  have bare : ∀ id, ((Traversal.start starting).stage.timeline id).inherited = ∅ := by
    intro id
    have created : (Stage.empty.create (0 : Rat)).inheritances = [∅] := rfl
    rw [Stage.inherited_of_inheritances (same.trans created.symm)]
    cases id <;> rfl
  refine ⟨?_, fun id => ?_⟩
  · rw [bare]
    rfl
  · rw [bare]
    exact .of_none _ _

/-- Landing lets every timeline keep what it inherited. -/
theorem Traversal.inheritances_land (walk : Traversal Rat) (destination : Styles Rat) :
    (walk.land destination).inheritances = walk.stage.inheritances := by
  simp only [land]
  split
  · rfl
  · refine (Stage.inheritances_modify _ _ fun timeline => ?_).trans
      (Stage.inheritances_write _ _ _ _)
    rfl

/-- What the timelines of a compilation inherited makes no difference. -/
theorem Tree.redundant_landedStage (frame : 0 ≤ settings.frameLength)
    (single : ∀ node ∈ tree.nodes, node.kind ≠ .group)
    (rise : ∀ node ∈ tree.nodes, node.OffsetsRise) (free : property ≠ offsetKey)
    (unreserved : property ≠ easingKey) (id : Nat) :
    Redundant (tree.compileLedger property settings starting destination scope) id
      (((tree.landedStage settings starting destination scope).timeline id).inherited.get?
        property) := by
  have tended : (Traversal.start starting).Tended Upkeep.succession Upkeep.succession.ready property
      _ := Traversal.tended_start (Upkeep.lawful_succession frame) free starting
  have walked := Traversal.continuous_visit frame free unreserved tree single rise scope tended
    (Traversal.continuous_start starting)
  have landed := Traversal.inheritances_land
    (Traversal.visit settings scope tree (.start starting)) destination
  rw [landedStage, Stage.inherited_of_inheritances landed]
  by_cases here : id = (Traversal.visit settings scope tree (.start starting)).current
  · rw [here, walked.fresh]
    exact .of_none _ _
  · refine (walked.redundant id).append fun entry member there => ?_
    exact absurd (there.symm.trans (Traversal.own_writeLedger entry member).1) here

/-- Every timeline of a compilation writes in the order of time. -/
theorem Tree.pairwise_ownWrites (frame : 0 ≤ settings.frameLength)
    (rise : ∀ node ∈ tree.nodes, node.OffsetsRise) (free : property ≠ offsetKey)
    (unreserved : property ≠ easingKey) {id : Nat}
    (opened : id < (tree.landedStage settings starting destination scope).size) :
    (ownWrites (tree.compileLedger property settings starting destination scope) id).Pairwise
      fun earlier later => earlier.time ≤ later.time := by
  have lawful := Upkeep.lawful_succession frame
  have landed := (tree.tended_walk lawful free unreserved rise starting scope).land lawful free
    (tree.complete_walk settings starting scope) destination
  exact landed.left id opened

end Compilations

/-- Up to a time that lies before all writes, nothing was written. -/
theorem lastWriteBy_eq_none {writes : List (Stamped Rat)} {time : Rat}
    (later : ∀ write ∈ writes, time < write.time) : lastWriteBy writes time = none := by
  have none : writes.filter (fun write => decide (write.time ≤ time)) = [] := by
    refine List.filter_eq_nil_iff.2 fun write member => ?_
    simpa using later write member
  rw [lastWriteBy, none]
  rfl

/-- Before its first write, a timeline that inherited nothing of its own shows what was written last
on any timeline. -/
theorem replayed_eq_lastWritten {earlier later : List (LedgerEntry Rat)} {first : LedgerEntry Rat}
    {id : Nat} {inherited : Option (Value Rat)} {time : Rat}
    (redundant : Redundant (earlier ++ first :: later) id inherited)
    (repeated : Repeats (earlier ++ first :: later))
    (rising : (ownWrites (earlier ++ first :: later) id).Pairwise fun earlier later =>
      earlier.time ≤ later.time)
    (unwritten : ownWrites earlier id = []) (own : first.isOwn id = true)
    (behind : time < first.stamped.time) :
    replayed (earlier ++ first :: later) id inherited time =
      some ((lastWritten earlier).getD Value.automatic) := by
  have writes : ownWrites (earlier ++ first :: later) id =
      first.stamped :: ownWrites later id := by
    rw [ownWrites_append, unwritten, List.nil_append, ownWrites, List.filter_cons, own]
    rfl
  have before := entered_before (ownWrites_eq_nil_iff.1 unwritten) own later
  have started : lastWriteBy (ownWrites (earlier ++ first :: later) id) time = none := by
    rw [writes] at rising ⊢
    refine lastWriteBy_eq_none (List.forall_mem_cons.2 ⟨behind, fun write member => ?_⟩)
    exact behind.trans_le ((List.pairwise_cons.1 rising).1 write member)
  have known : valueBefore (earlier ++ first :: later) id inherited =
      valueBefore (earlier ++ first :: later) id none := by
    refine redundant.resolve_left ?_
    rw [writes]
    exact List.cons_ne_nil _ _
  rw [replayed, started, Option.none_or, originalValue, writes, List.isEmpty_cons,
    if_neg Bool.false_ne_true, known, valueBefore, before, Option.none_or,
    repeated.of_append.sharedValue_eq]

/-- **Sequential continuity.** Without groups, the first keyframe of every timeline that is emitted
shows of a property that the timeline first writes later the value that was written last before, on
whichever timeline, and the computed style if it was never written. The instructions are those of
the timelines that are emitted, in order. -/
theorem Tree.compile_continues (tree : Tree Rat) (settings : Settings Rat)
    (starting destination : Styles Rat) (scope : Params Rat) (frame : 0 ≤ settings.frameLength)
    (single : ∀ node ∈ tree.nodes, node.kind ≠ .group)
    (payloads : ∀ node ∈ tree.nodes, node.HasPayload)
    (rise : ∀ node ∈ tree.nodes, node.OffsetsRise) :
    let stage := tree.landedStage settings starting destination scope
    (tree.compile settings starting destination scope).1 =
        Instruction.orNoop (stage.emittedIds.map fun id => (stage.timeline id).instruction) ∧
      ∀ id ∈ stage.emittedIds,
        (∃ keyframe ∈ (stage.timeline id).instruction.keyframes,
          keyframe.get? offsetKey = some (.number 0)) ∧
        ∀ property, property ≠ offsetKey → property ≠ easingKey → ∀ earlier first later,
          tree.compileLedger property settings starting destination scope =
              earlier ++ first :: later →
            ownWrites earlier id = [] → first.isOwn id = true →
              (stage.timeline id).instruction.delay < first.stamped.time →
                ∀ keyframe ∈ (stage.timeline id).instruction.keyframes,
                  keyframe.get? offsetKey = some (.number 0) →
                    keyframe.get? property =
                      some ((lastWritten earlier).getD Value.automatic) := by
  intro stage
  refine ⟨stage.instructions_eq, fun id emitted => ?_⟩
  have opened := (Stage.mem_emittedIds.1 emitted).1
  have timed := (tree.wellTimed_landedStage frame starting destination scope).timeline id
  refine ⟨?_, ?_⟩
  · obtain ⟨offsets, shown, _, start, _⟩ := (Timeline.normalized_instruction timed).offsets
    have member : (some (Value.number 0)) ∈ offsets.map fun offset => some (Value.number offset) :=
      List.mem_map_of_mem (List.mem_of_head? start)
    rw [← shown] at member
    exact List.mem_map.1 member
  intro property free unreserved earlier first later ledger unwritten own behind keyframe shown
    atStart
  have replays := Tree.replays_landedStage frame payloads rise starting destination scope free
    unreserved opened
  have rising := Tree.pairwise_ownWrites frame rise free unreserved opened
  have redundant : Redundant (tree.compileLedger property settings starting destination scope) id
      _ :=
    Tree.redundant_landedStage frame single rise free unreserved id
  have repeated : Repeats (tree.compileLedger property settings starting destination scope) :=
    Tree.repeats_compileLedger single free
  rw [ledger] at replays rising redundant repeated
  obtain ⟨offset, numbered, shows⟩ := Timeline.keyframe_replays timed free replays shown
  have zero : offset = 0 := by
    rw [numbered] at atStart
    exact Value.number.inj (Option.some.inj atStart)
  rw [zero, zero_mul, add_zero] at shows
  exact shows.trans (replayed_eq_lastWritten redundant repeated rising unwritten own behind)

/-- The timeline behind the keyframe list never wrote the color before, and begins with it. -/
theorem continues_redWidthGreen :
    0 ≤ (Settings.standard : Settings Rat).frameLength ∧
      (∀ node ∈ redWidthGreen.nodes, node.kind ≠ .group) ∧
        (∀ node ∈ redWidthGreen.nodes, node.HasPayload) ∧
          (∀ node ∈ redWidthGreen.nodes, node.OffsetsRise) ∧
            ∃ instruction keyframe,
              (redWidthGreen.compile Settings.standard ∅ ∅ ∅).1[2]? = some instruction ∧
                instruction.delay = 200 ∧ keyframe ∈ instruction.keyframes ∧
                  keyframe.get? offsetKey = some (.number 0) ∧
                    keyframe.get? "color" = some (.text "red") := by
  have frame : 0 ≤ (Settings.standard : Settings Rat).frameLength := by decide
  have single : ∀ node ∈ redWidthGreen.nodes, node.kind ≠ .group := by decide
  have payloads : ∀ node ∈ redWidthGreen.nodes, node.HasPayload := by decide
  have rise : ∀ node ∈ redWidthGreen.nodes, node.OffsetsRise := by decide +kernel
  have ids : (redWidthGreen.landedStage (Settings.standard : Settings Rat) ∅ ∅ ∅).emittedIds =
      [0, 1, 2] := by decide +kernel
  have delay : ((redWidthGreen.landedStage (Settings.standard : Settings Rat) ∅ ∅ ∅).timeline
      2).instruction.delay = 200 := by decide +kernel
  obtain ⟨listed, continues⟩ := redWidthGreen.compile_continues Settings.standard ∅ ∅ ∅ frame single
    payloads rise
  rw [ids] at listed continues
  obtain ⟨⟨keyframe, shown, atStart⟩, continues⟩ := continues 2 (by decide)
  have third := congrArg (fun instructions => instructions[2]?) listed
  have ledger : redWidthGreen.compileLedger "color" Settings.standard ∅ ∅ ∅ =
      [⟨0, ⟨100, .text "red"⟩, false⟩] ++ [⟨2, ⟨(250 : Rat), .text "green"⟩, false⟩] := by
    decide +kernel
  have red := continues "color" (by decide) (by decide) _ _ _ ledger (by decide) (by decide)
    (by rw [delay]; decide +kernel) keyframe shown atStart
  exact ⟨frame, single, payloads, rise, _, keyframe, third, delay, shown, atStart, red⟩

end Storyboard
