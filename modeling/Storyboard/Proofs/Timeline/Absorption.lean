import Storyboard.Proofs.Compilation.Holdings
import Storyboard.Proofs.Timeline.Operations

/-!
# Folding timelines into one

When branches come to an end, the summaries of their timelines are folded into the timeline on which
they were forked, one after the other. Each fold compares with what the target holds by then, so a
timeline that is folded in early changes what a later one is compared with. All the same the folds
together find one thing: for each property the latest write among the target's own and those of the
sources, and of several that are equally late the first one, the target's own before those of the
sources in their order (`Stage.merged_foldl_absorb`). It makes no difference whether a source comes
twice, or whether the target is one of its own sources.

The fold of one source is the step (`Stamped.FirstLatest.concat`): it keeps what stands unless the
incoming write is strictly later. Everything but two tables of the target stays, and those two agree
with each other in every stage that the operations lead to (`Stage.Reachable.recorded`).
-/

set_option autoImplicit false

namespace Storyboard

variable {ν : Type}

/-! ## Reachable stages -/

namespace Stage

variable [Scalar ν]

/-- A stage that operations lead to from the empty one. What a timeline lets anybody set, its start,
its cursor and its easing, may be set in between. -/
inductive Reachable : Stage ν → Prop where
  | empty : Reachable Stage.empty
  | perform {stage : Stage ν} (reached : Reachable stage) (operation : Operation ν) :
      Reachable (stage.perform operation)
  | adjust {stage : Stage ν} (reached : Reachable stage) (id : Nat) (start cursor : ν)
      (easing : Option String) :
      Reachable (stage.modify id fun timeline =>
        { timeline with start := start, cursor := cursor, easing := easing })

theorem reachable_run (operations : List (Operation ν)) : (run operations).Reachable := by
  induction operations using List.reverseRecOn with
  | nil => exact .empty
  | append_singleton operations last ih =>
    rw [run, List.foldl_append]
    exact ih.perform last

end Stage

/-- The value that a timeline has written for a property is that of its summary. -/
def Timeline.Recorded (timeline : Timeline ν) : Prop :=
  ∀ property, timeline.written.get? property =
    (timeline.summary.get? property).map Stamped.value

namespace Timeline.Recorded

variable {timeline : Timeline ν}

theorem adopt (recorded : timeline.Recorded) (property : String) (stamped : Stamped ν) :
    (timeline.adopt property stamped).Recorded := by
  intro other
  rw [Timeline.adopt, OrderedMap.get?_insert, OrderedMap.get?_insert]
  split
  · rfl
  · exact recorded other

theorem capture (recorded : timeline.Recorded) (property : String) (known : Option (Value ν)) :
    (timeline.capture property known).Recorded := by
  unfold Timeline.capture
  split
  · exact recorded
  · exact recorded

theorem seek [Scalar ν] (recorded : timeline.Recorded) (time : ν) :
    (timeline.seek time).Recorded := by
  unfold Timeline.seek
  split
  · exact recorded
  · exact recorded

theorem write [Scalar ν] (recorded : timeline.Recorded) (property : String) (value : Value ν)
    (known : Option (Value ν)) : (timeline.write property value known).Recorded :=
  (recorded.capture property known).adopt property ⟨timeline.now, value⟩

end Timeline.Recorded

namespace Stage

/-- The stage after the summaries of sources are folded into a target, one after the other. -/
def absorbAll [Scalar ν] (stage : Stage ν) (target : Nat) (sources : List Nat) : Stage ν :=
  sources.foldl (fun merged source => merged.absorb target source) stage

/-- Every timeline has written what its summary says. -/
def Recorded (stage : Stage ν) : Prop :=
  ∀ timeline ∈ stage.timelines, timeline.Recorded

namespace Recorded

variable {stage : Stage ν}

theorem modify (recorded : stage.Recorded) (id : Nat) {change : Timeline ν → Timeline ν}
    (kept : ∀ timeline : Timeline ν, timeline.Recorded → (change timeline).Recorded) :
    (stage.modify id change).Recorded :=
  forall_mem_modify recorded id kept

theorem push (recorded : stage.Recorded) {timeline : Timeline ν} (fresh : timeline.Recorded) :
    (stage.push timeline).Recorded :=
  List.forall_mem_append.2 ⟨recorded, List.forall_mem_singleton.2 fresh⟩

theorem easeSegment (recorded : stage.Recorded) (id : Nat) (easing : Option String) :
    (stage.easeSegment id easing).Recorded := by
  cases easing with
  | none => exact recorded
  | some easing => exact recorded.modify id fun _ kept => kept

theorem writeEmptyStep (recorded : stage.Recorded) (id : Nat) (easing : Option String) :
    (stage.writeEmptyStep id easing).Recorded := by
  refine (recorded.easeSegment id easing).modify id fun timeline kept => ?_
  refine List.foldlRecOn (motive := Timeline.Recorded) _ _ kept ?_
  intro marked kept entry _
  exact kept.capture entry.1 _

variable [Scalar ν]

theorem writeEntry (recorded : stage.Recorded) (id : Nat) (entry : String × Value ν) :
    (stage.writeEntry id entry).Recorded := by
  unfold Stage.writeEntry
  split
  · exact recorded
  · exact recorded.modify id fun _ kept => kept.write entry.1 entry.2 _

theorem write (recorded : stage.Recorded) (id : Nat) (styles : Styles ν) (easing : Option String) :
    (stage.write id styles easing).Recorded := by
  refine write_induction styles (recorded.easeSegment id easing) ?_ ?_
  · intro written entry kept
    exact kept.writeEntry id entry
  · intro written kept
    exact kept.modify id fun _ kept => kept

theorem absorb (recorded : stage.Recorded) (target source : Nat) :
    (stage.absorb target source).Recorded := by
  refine List.foldlRecOn (motive := Recorded) _ _ recorded ?_
  intro merged kept entry _
  exact kept.modify target fun _ kept => kept.adopt entry.1 entry.2

theorem perform (recorded : stage.Recorded) (operation : Operation ν) :
    (stage.perform operation).Recorded := by
  have blank : ∀ (start : ν) (inherited : Styles ν),
      (Timeline.blank start inherited).Recorded := fun _ _ _ => rfl
  cases operation with
  | create start => exact recorded.push (blank start ∅)
  | fork parent start inherits => exact recorded.push (blank _ _)
  | forwardFrame id length => exact recorded.modify id fun _ kept => kept.seek _
  | forwardTo id time => exact recorded.modify id fun _ kept => kept.seek _
  | snapshot id => exact recorded.modify id fun _ kept => kept
  | write id styles easing => exact recorded.write id styles easing
  | writeEmptyStep id easing => exact recorded.writeEmptyStep id easing
  | land id styles => exact (recorded.write id styles none).modify id fun _ kept => kept
  | absorb target source => exact recorded.absorb target source

theorem absorbAll (recorded : stage.Recorded) (target : Nat) (sources : List Nat) :
    (stage.absorbAll target sources).Recorded := by
  refine List.foldlRecOn (motive := Recorded) _ _ recorded ?_
  intro merged kept source _
  exact kept.absorb target source

/-- The timeline with a number, also if the stage has not given it out. -/
theorem timeline (recorded : stage.Recorded) (id : Nat) : (stage.timeline id).Recorded := by
  unfold Stage.timeline Stage.get?
  cases found : stage.timelines[id]? with
  | none => exact fun _ => rfl
  | some timeline => exact recorded timeline (List.mem_of_getElem? found)

end Recorded

variable [Scalar ν]

/-- In a reachable stage what a timeline has written agrees with its summary. -/
theorem Reachable.recorded {stage : Stage ν} (reached : stage.Reachable) : stage.Recorded := by
  induction reached with
  | empty => exact fun timeline member => absurd member List.not_mem_nil
  | perform _ operation ih => exact ih.perform operation
  | adjust _ id start cursor easing ih => exact ih.modify id fun _ kept => kept

end Stage

/-! ## The latest of several writes -/

namespace Stamped

variable [Scalar ν]

/-- The result is the latest of the entries, and the first one of those that are equally late; there
is none if there are no entries. -/
def FirstLatest (entries : List (Stamped ν)) : Option (Stamped ν) → Prop
  | none => entries = []
  | some latest => ∃ before after, entries = before ++ latest :: after ∧
      (∀ entry ∈ before, entry.time < latest.time) ∧
        ∀ entry ∈ after, Scalar.atMost entry.time latest.time = true

namespace FirstLatest

variable {entries : List (Stamped ν)} {standing : Option (Stamped ν)}

/-- A sole entry is the latest one. -/
theorem singleton (entry : Stamped ν) : FirstLatest [entry] (some entry) := by
  refine ⟨[], [], rfl, ?_, ?_⟩
  · exact fun other member => absurd member List.not_mem_nil
  · exact fun other member => absurd member List.not_mem_nil

/-- No entry is later than the latest one. -/
theorem atMost_of_mem {latest entry : Stamped ν} (first : FirstLatest entries (some latest))
    (member : entry ∈ entries) (proper : (entry.time == entry.time) = true) :
    Scalar.atMost entry.time latest.time = true := by
  obtain ⟨before, after, rfl, earlier, notLater⟩ := first
  rcases List.mem_append.1 member with inFront | here
  · exact Scalar.atMost_of_lt (earlier entry inFront)
  · rcases List.mem_cons.1 here with rfl | behind
    · exact Scalar.atMost_self proper
    · exact notLater entry behind

variable [LawfulScalar ν]

/-- An entry that has been compared already does not supersede the latest one. -/
theorem not_supersedes_of_mem {entry : Stamped ν} (first : FirstLatest entries standing)
    (member : entry ∈ entries) (proper : (entry.time == entry.time) = true) :
    entry.supersedes standing = false := by
  cases standing with
  | none =>
    rw [show entries = [] from first] at member
    exact absurd member List.not_mem_nil
  | some latest =>
    apply decide_eq_false
    intro later
    have bounded := first.atMost_of_mem member proper
    exact LawfulScalar.lt_irrefl _ (Scalar.lt_of_lt_of_atMost later bounded)

/-- **One more entry** is the latest one if it supersedes what stands, and else what stands
remains. -/
theorem concat (first : FirstLatest entries standing) {incoming : Stamped ν}
    (proper : ∀ entry ∈ entries ++ [incoming], (entry.time == entry.time) = true) :
    FirstLatest (entries ++ [incoming])
      (if incoming.supersedes standing then some incoming else standing) := by
  have properIncoming := proper incoming (List.mem_append_right _ List.mem_cons_self)
  cases standing with
  | none =>
    obtain rfl : entries = [] := first
    exact singleton incoming
  | some latest =>
    by_cases later : latest.time < incoming.time
    · have superseded : incoming.supersedes (some latest) = true := decide_eq_true later
      rw [superseded, if_pos rfl]
      refine ⟨entries, [], rfl, fun entry member => ?_, ?_⟩
      · have bounded := first.atMost_of_mem member (proper entry (List.mem_append_left _ member))
        exact Scalar.lt_of_atMost_of_lt bounded later
      · exact fun entry member => absurd member List.not_mem_nil
    · have stays : incoming.supersedes (some latest) = false := decide_eq_false later
      rw [stays, if_neg Bool.false_ne_true]
      obtain ⟨before, after, rfl, earlier, notLater⟩ := first
      refine ⟨before, after ++ [incoming], ?_, earlier, fun entry member => ?_⟩
      · rw [List.append_assoc, List.cons_append]
      · rcases List.mem_append.1 member with behind | last
        · exact notLater entry behind
        · obtain rfl := List.mem_singleton.1 last
          have properLatest := proper latest (List.mem_append_left _
            (List.mem_append_right _ List.mem_cons_self))
          exact Scalar.atMost_of_not_lt properIncoming properLatest later

/-- An entry that is among them already changes nothing. -/
theorem again {entry : Stamped ν} (first : FirstLatest entries standing)
    (member : entry ∈ entries) (proper : ∀ entry ∈ entries, (entry.time == entry.time) = true) :
    FirstLatest (entries ++ [entry]) standing := by
  have stays := first.not_supersedes_of_mem member (proper entry member)
  have all : ∀ other ∈ entries ++ [entry], (other.time == other.time) = true := by
    intro other listed
    rcases List.mem_append.1 listed with before | last
    · exact proper other before
    · exact List.mem_singleton.1 last ▸ proper entry member
  have more := first.concat all
  rwa [stays, if_neg Bool.false_ne_true] at more

end FirstLatest

end Stamped

/-! ## Folding sources into a target -/

namespace Stage

variable [Scalar ν]

/-- The writes of a property in the summaries of timelines. -/
def summaries (stage : Stage ν) (ids : List Nat) (property : String) : List (Stamped ν) :=
  ids.filterMap fun id => (stage.timeline id).summary.get? property

/-- Every write in the summaries of the timelines has a time that is a number. -/
def ProperTimes (stage : Stage ν) (ids : List Nat) : Prop :=
  ∀ id ∈ ids, ∀ property stamped, (stage.timeline id).summary.get? property = some stamped →
    (stamped.time == stamped.time) = true

/-- It is enough that the times in the tables are numbers. -/
theorem ProperTimes.of_entries {stage : Stage ν} {ids : List Nat}
    (proper : ∀ id ∈ ids, ∀ entry ∈ (stage.timeline id).summary.entries,
      (entry.2.time == entry.2.time) = true) : stage.ProperTimes ids := by
  intro id listed property stamped found
  exact proper id listed (property, stamped) (OrderedMap.mem_of_get? found)

theorem ProperTimes.of_mem_summaries {stage : Stage ν} {ids : List Nat}
    (proper : stage.ProperTimes ids) {property : String} {entry : Stamped ν}
    (member : entry ∈ stage.summaries ids property) : (entry.time == entry.time) = true := by
  obtain ⟨id, listed, found⟩ := List.mem_filterMap.1 member
  exact proper id listed property entry found

/-- Nothing but the two tables of one timeline that say what it has written, and the styles that all
timelines share, differs between the stages. -/
structure RecordsOn (target : Nat) (before after : Stage ν) : Prop where
  size : after.size = before.size
  others : ∀ id, id ≠ target → after.timeline id = before.timeline id
  records : ∃ written summary,
    after.timeline target = { before.timeline target with written := written, summary := summary }

namespace RecordsOn

variable {target : Nat} {before middle after : Stage ν}

theorem refl (target : Nat) (stage : Stage ν) : RecordsOn target stage stage :=
  ⟨rfl, fun _ _ => rfl, _, _, rfl⟩

theorem trans (early : RecordsOn target before middle) (late : RecordsOn target middle after) :
    RecordsOn target before after := by
  refine ⟨late.size.trans early.size, fun id apart => ?_, ?_⟩
  · exact (late.others id apart).trans (early.others id apart)
  · obtain ⟨_, _, first⟩ := early.records
    obtain ⟨written, summary, second⟩ := late.records
    exact ⟨written, summary, by rw [second, first]⟩

theorem adoptEntry {stage : Stage ν} (opened : target < stage.size) (entry : String × Stamped ν) :
    RecordsOn target stage (stage.adoptEntry target entry) := by
  have changed := timeline_modify opened fun timeline => timeline.adopt entry.1 entry.2
  refine ⟨size_modify stage target _, fun id apart => ?_, ?_⟩
  · exact (changed id).trans (if_neg apart)
  · exact ⟨_, _, (changed target).trans (if_pos rfl)⟩

theorem absorb {stage : Stage ν} (opened : target < stage.size) (source : Nat) :
    RecordsOn target stage (stage.absorb target source) := by
  refine List.foldlRecOn (motive := RecordsOn target stage) _ _ (refl target stage) ?_
  intro merged kept entry _
  exact kept.trans (adoptEntry (kept.size ▸ opened) entry)

theorem absorbAll {stage : Stage ν} (opened : target < stage.size) (sources : List Nat) :
    RecordsOn target stage (stage.absorbAll target sources) := by
  refine List.foldlRecOn (motive := RecordsOn target stage) _ _ (refl target stage) ?_
  intro merged kept source _
  exact kept.trans (absorb (kept.size ▸ opened) source)

/-- What is recorded shows in no instruction. -/
theorem instruction (same : RecordsOn target before after) (id : Nat) :
    (after.timeline id).instruction = (before.timeline id).instruction := by
  by_cases here : id = target
  · obtain ⟨written, summary, changed⟩ := same.records
    rw [here, changed]
    rfl
  · rw [same.others id here]

end RecordsOn

/-- One fold takes the write of the source over if it supersedes what stands. -/
theorem summary_absorb {stage : Stage ν} {target : Nat} (opened : target < stage.size)
    (source : Nat) (property : String) :
    ((stage.absorb target source).timeline target).summary.get? property =
      match (stage.timeline source).summary.get? property with
      | none => (stage.timeline target).summary.get? property
      | some incoming =>
        if incoming.supersedes ((stage.timeline target).summary.get? property) then some incoming
        else (stage.timeline target).summary.get? property := by
  have folded := congrArg (fun holding => holding.summary target)
    (holding_absorb opened source property)
  refine folded.trans ?_
  simp only [holding, Holding.carry]
  cases (stage.timeline source).summary.get? property with
  | none => rfl
  | some incoming =>
    cases superseded :
        incoming.supersedes ((stage.timeline target).summary.get? property) with
    | true => simp [superseded, Holding.post, Holding.enter]
    | false => simp [superseded, Holding.post]

variable [LawfulScalar ν]

/-- Folding a timeline into itself takes nothing over. -/
theorem summary_absorb_self {stage : Stage ν} {target : Nat} (opened : target < stage.size)
    (property : String) :
    ((stage.absorb target target).timeline target).summary.get? property =
      (stage.timeline target).summary.get? property := by
  rw [summary_absorb opened]
  cases (stage.timeline target).summary.get? property with
  | none => rfl
  | some stamped =>
    have stays : stamped.supersedes (some stamped) = false :=
      decide_eq_false (LawfulScalar.lt_irrefl stamped.time)
    simp only [stays, Bool.false_eq_true, if_false]

/-- **The folds find the latest write.** -/
theorem firstLatest_absorbAll {stage : Stage ν} {target : Nat} (opened : target < stage.size)
    (sources : List Nat) (proper : stage.ProperTimes (target :: sources)) (property : String) :
    Stamped.FirstLatest (stage.summaries (target :: sources) property)
      (((stage.absorbAll target sources).timeline target).summary.get? property) := by
  induction sources using List.reverseRecOn with
  | nil =>
    have own : stage.summaries [target] property =
        ((stage.timeline target).summary.get? property).toList := by
      rw [summaries, List.filterMap_cons]
      cases (stage.timeline target).summary.get? property <;> rfl
    rw [own, absorbAll, List.foldl_nil]
    cases (stage.timeline target).summary.get? property with
    | none => rfl
    | some stamped => exact .singleton stamped
  | append_singleton sources last ih =>
    have earlier : stage.ProperTimes (target :: sources) := by
      intro id listed
      refine proper id ?_
      rw [← List.cons_append]
      exact List.mem_append_left _ listed
    have first := ih earlier
    have kept := RecordsOn.absorbAll opened sources
    have split : stage.summaries (target :: (sources ++ [last])) property =
        stage.summaries (target :: sources) property ++
          ((stage.timeline last).summary.get? property).toList := by
      rw [summaries, ← List.cons_append, List.filterMap_append, ← summaries]
      cases found : (stage.timeline last).summary.get? property <;> simp [found]
    have folded : stage.absorbAll target (sources ++ [last]) =
        (stage.absorbAll target sources).absorb target last := by
      rw [absorbAll, List.foldl_append]
      rfl
    rw [split, folded]
    by_cases self : last = target
    · -- The target's own write has been compared from the start, so it supersedes nothing.
      subst self
      rw [summary_absorb_self (kept.size ▸ opened)]
      cases own : (stage.timeline last).summary.get? property with
      | none => simpa using first
      | some stamped =>
        have member : stamped ∈ stage.summaries (last :: sources) property :=
          List.mem_filterMap.2 ⟨last, List.mem_cons_self, own⟩
        exact first.again member fun entry listed => earlier.of_mem_summaries listed
    · rw [summary_absorb (kept.size ▸ opened), kept.others last self]
      cases incoming : (stage.timeline last).summary.get? property with
      | none => simpa using first
      | some stamped =>
        exact first.concat fun entry listed => proper.of_mem_summaries
          (by rw [split, incoming]; exact listed)

omit [LawfulScalar ν] in
/-- A source that has no later write than the target changes nothing. -/
theorem absorb_of_notLater {stage : Stage ν} {target source : Nat}
    (notLater : ∀ property stamped,
      (stage.timeline source).summary.get? property = some stamped →
        stamped.supersedes ((stage.timeline target).summary.get? property) = false) :
    stage.absorb target source = stage := by
  have nothing : laterEntries (stage.timeline target).summary (stage.timeline source).summary =
      [] := by
    refine List.filter_eq_nil_iff.2 fun entry member taken => ?_
    have stays := notLater entry.1 entry.2 (OrderedMap.get?_of_mem member)
    unfold Stamped.supersedes at stays
    exact Bool.false_ne_true (stays.symm.trans taken)
  rw [absorb, nothing, List.foldl_nil]

/-- After the folds no source has a later write than the target. -/
theorem absorb_absorbAll {stage : Stage ν} {target : Nat} (opened : target < stage.size)
    {sources : List Nat} (proper : stage.ProperTimes (target :: sources)) {source : Nat}
    (listed : source ∈ sources) :
    (stage.absorbAll target sources).absorb target source = stage.absorbAll target sources := by
  refine absorb_of_notLater fun property stamped found => ?_
  by_cases self : source = target
  · rw [self] at found
    rw [found]
    exact decide_eq_false (LawfulScalar.lt_irrefl stamped.time)
  · rw [(RecordsOn.absorbAll opened sources).others source self] at found
    have member : stamped ∈ stage.summaries (target :: sources) property :=
      List.mem_filterMap.2 ⟨source, List.mem_cons_of_mem _ listed, found⟩
    have first := firstLatest_absorbAll opened sources proper property
    exact first.not_supersedes_of_mem member (proper.of_mem_summaries member)

/-- A stage after the summaries of sources have been folded into a target of another one. -/
structure Merged (stage : Stage ν) (target : Nat) (sources : List Nat) (merged : Stage ν) :
    Prop where
  /-- The summary of the target has the first of the latest writes. -/
  latest : ∀ property, Stamped.FirstLatest (stage.summaries (target :: sources) property)
    ((merged.timeline target).summary.get? property)
  /-- The target has written what its summary says. -/
  written : ∀ property, (merged.timeline target).written.get? property =
    ((merged.timeline target).summary.get? property).map Stamped.value
  /-- Folding a source in once more changes nothing, the shared styles included. -/
  settled : ∀ source ∈ sources, merged.absorb target source = merged
  /-- Of all timelines nothing has changed but what the target has recorded. -/
  frame : RecordsOn target stage merged
  instructions : ∀ id, (merged.timeline id).instruction = (stage.timeline id).instruction

/-- **Folding timelines into one is one search for the latest write.** In every stage that
operations lead to, the summaries of any sources, in any order and with repetitions, leave for each
property the first of the latest writes, and nothing but the records of the target is touched. -/
theorem merged_foldl_absorb {stage : Stage ν} (reached : stage.Reachable) {target : Nat}
    (opened : target < stage.size) (sources : List Nat)
    (proper : stage.ProperTimes (target :: sources)) :
    stage.Merged target sources
      (sources.foldl (fun merged source => merged.absorb target source) stage) where
  latest property := firstLatest_absorbAll opened sources proper property
  written property := (reached.recorded.absorbAll target sources).timeline target property
  settled _ listed := absorb_absorbAll opened proper listed
  frame := RecordsOn.absorbAll opened sources
  instructions := (RecordsOn.absorbAll opened sources).instruction

/-- Three forks of a red card: the first two write a color at the same time, the last one writes
its place earlier than the second one. -/
def crossedForks : List (Operation Binary64) :=
  [.create 0, .write 0 (.ofList [("color", .text "red"), ("left", .text "0")]) none,
    .fork 0 none true, .forwardTo 1 (1 + 1), .write 1 (.ofList [("color", .text "blue")]) none,
    .fork 0 none true, .forwardTo 2 (1 + 1),
    .write 2 (.ofList [("color", .text "green"), ("left", .text "2px")]) none,
    .fork 0 none false, .forwardTo 3 1, .write 3 (.ofList [("left", .text "1px")]) none]

/-- The forks are folded in, the second one first and twice, and the card itself among them. -/
theorem merged_crossedForks :
    0 < (run crossedForks).size ∧ (run crossedForks).ProperTimes [0, 2, 1, 0, 3, 2] ∧
      (run crossedForks).Merged 0 [2, 1, 0, 3, 2]
        ([2, 1, 0, 3, 2].foldl (fun merged source => merged.absorb 0 source)
          (run crossedForks)) ∧
      ([2, 1, 0, 3, 2].foldl (fun merged source => merged.absorb 0 source)
        (run crossedForks)).timelines.map (fun timeline => timeline.written.entries) =
        [[("color", .text "green"), ("left", .text "2px")], [("color", .text "blue")],
          [("color", .text "green"), ("left", .text "2px")], [("left", .text "1px")]] := by
  have opened : 0 < (run crossedForks).size := by decide +kernel
  have proper : (run crossedForks).ProperTimes [0, 2, 1, 0, 3, 2] :=
    .of_entries (by decide +kernel)
  exact ⟨opened, proper,
    merged_foldl_absorb (reachable_run crossedForks) opened [2, 1, 0, 3, 2] proper,
    by decide +kernel⟩

end Stage

end Storyboard
