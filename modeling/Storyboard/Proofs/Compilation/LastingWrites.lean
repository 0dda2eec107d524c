import Storyboard.Proofs.Compilation.Branches
import Storyboard.Proofs.Compilation.Imprints
import Storyboard.Proofs.Compilation.Lockstep

/-!
# Animated writes last

No animated write is lost: for every animated step with styles that the walk comes to, at any depth
of sequences, groups and references, and that takes time, an instruction has a keyframe at the end
of the step, and the keyframe shows what the step has written
(`Tree.compile_keeps_animated_writes`).

Only what comes later on the same timeline at the same local time can replace it: another write of
the property, or a step without payload, which marks the property as computed
(`fadeThenHold_never_shows`). Both are imprints that stand behind that of the step, so the keyframe
shows what was put in last (`Tree.keyframe_of_imprint`).
-/

set_option autoImplicit false

namespace Storyboard

variable {ν : Type} [Scalar ν]

/-! ## Coming to a node -/

namespace Traversal

/-- A walk that enters a tree in a scope comes to a node inside of it, in a scope. -/
inductive Meets (settings : Settings ν) :
    Params ν → Traversal ν → Tree ν → Params ν → Traversal ν → Tree ν → Prop where
  | here (scope : Params ν) (walk : Traversal ν) (node : Tree ν) :
      Meets settings scope walk node scope walk node
  | step {scope inner : Params ν} {walk entry : Traversal ν} {step node : Tree ν}
      (earlier later : List (Tree ν))
      (inside : Meets settings scope
        (visitSteps settings scope earlier (walk.enterSequence settings)) step inner entry node) :
      Meets settings scope walk (.sequence (earlier ++ step :: later)) inner entry node
  | branch {scope inner : Params ν} {walk entry : Traversal ν} {branch node : Tree ν}
      (earlier later : List (Tree ν))
      (inside : Meets settings scope
        (walk.enterBranch (throughBranches settings scope walk earlier walk)) branch inner entry
        node) :
      Meets settings scope walk (.group (earlier ++ branch :: later)) inner entry node
  | reference {scope inner : Params ν} {walk entry : Traversal ν} {animation node : Tree ν}
      (defaults : Params ν)
      (inside : Meets settings (referenceScope defaults scope) walk animation inner entry node) :
      Meets settings scope walk (.reference animation defaults) inner entry node
  | animateRef {scope inner : Params ν} {walk entry : Traversal ν} {animation node : Tree ν}
      (defaults overrides : Params ν)
      (inside : Meets settings (invocationScope defaults scope overrides) walk animation inner entry
        node) :
      Meets settings scope walk (.animateRef animation defaults overrides) inner entry node

theorem stepImprints_append (settings : Settings ν) (scope : Params ν) (later : List (Tree ν)) :
    ∀ (earlier : List (Tree ν)) (walk : Traversal ν),
      stepImprints settings scope (earlier ++ later) walk =
        stepImprints settings scope earlier walk ++
          stepImprints settings scope later (visitSteps settings scope earlier walk)
  | [], _ => rfl
  | step :: rest, walk => by
    rw [List.cons_append, stepImprints, stepImprints, visitSteps,
      stepImprints_append settings scope later rest, List.append_assoc]

theorem branchImprints_append (settings : Settings ν) (scope : Params ν) (entry : Traversal ν)
    (later : List (Tree ν)) :
    ∀ (earlier : List (Tree ν)) (walk : Traversal ν),
      branchImprints settings scope entry (earlier ++ later) walk =
        branchImprints settings scope entry earlier walk ++
          branchImprints settings scope entry later
            (throughBranches settings scope entry earlier walk)
  | [], _ => rfl
  | branch :: rest, walk => by
    rw [List.cons_append, branchImprints, branchImprints, throughBranches,
      branchImprints_append settings scope entry later rest, List.append_assoc]

/-- Behind some branches the group is still under way. -/
theorem underway_throughBranches {settings : Settings Rat} (frame : 0 ≤ settings.frameLength)
    (scope : Params Rat) {entry : Traversal Rat} :
    ∀ (branches : List (Tree Rat)) {walk : Traversal Rat} {furthest : Rat},
      Underway entry furthest walk.stage →
        ∃ further, Underway entry further
          (throughBranches settings scope entry branches walk).stage
  | [], _, furthest, underway => ⟨furthest, underway⟩
  | branch :: rest, _, _, underway =>
    underway_throughBranches frame scope rest
      (underway.visitBranch (slot_visit frame branch scope underway.leads_enterBranch.1))

/-- A walk comes to every node on the timeline opened last. -/
theorem Meets.leads {settings : Settings Rat} (frame : 0 ≤ settings.frameLength)
    {scope inner : Params Rat} {walk entry : Traversal Rat} {tree node : Tree Rat}
    (met : Meets settings scope walk tree inner entry node) (leads : walk.Leads) :
    entry.Leads := by
  induction met with
  | here => exact leads
  | @step scope _ walk _ _ _ earlier _ _ ih =>
    exact ih (slot_visitSteps frame earlier scope (slot_enterSequence frame leads).leads).leads
  | @branch scope _ walk _ _ _ earlier _ _ ih =>
    obtain ⟨_, underway⟩ := underway_throughBranches frame scope earlier (.refl leads)
    exact ih underway.leads_enterBranch.1
  | reference _ _ ih | animateRef _ _ _ ih => exact ih leads

/-- The imprints of a node stand together in those of a tree whose visit comes to it. When the walk
comes to the node, it keeps those that were made on the way. -/
theorem Meets.exists_retains {settings : Settings Rat} (frame : 0 ≤ settings.frameLength)
    {property : String} (free : property ≠ offsetKey) (unreserved : property ≠ easingKey)
    {scope inner : Params Rat} {walk entry : Traversal Rat} {tree node : Tree Rat}
    (met : Meets settings scope walk tree inner entry node) (leads : walk.Leads)
    {log : List (Imprint Rat)} (retains : walk.Retains property log) :
    ∃ before after, imprints settings scope tree walk =
        before ++ imprints settings inner node entry ++ after ∧
      entry.Retains property (log ++ before) := by
  induction met generalizing log with
  | here =>
    refine ⟨[], [], by rw [List.nil_append, List.append_nil], ?_⟩
    rwa [List.append_nil]
  | @step scope _ walk _ step _ earlier later _ ih =>
    have entered := (slot_enterSequence frame leads).leads
    have visited := retains_visitSteps frame free unreserved earlier scope
      (retains_enterSequence frame retains leads) entered
    obtain ⟨before, after, split, kept⟩ := ih (slot_visitSteps frame earlier scope entered).leads
      visited
    refine ⟨stepImprints settings scope earlier (walk.enterSequence settings) ++ before,
      after ++ stepImprints settings scope later (visit settings scope step
        (visitSteps settings scope earlier (walk.enterSequence settings))), ?_, ?_⟩
    · simp only [imprints, stepImprints_append, stepImprints, split, List.append_assoc]
    · rwa [← List.append_assoc]
  | @branch scope _ walk _ branch _ earlier later _ ih =>
    obtain ⟨_, underway⟩ := underway_throughBranches frame scope earlier (.refl leads)
    have through := keeps_throughBranches frame free unreserved earlier scope (.refl leads)
      retains.keeps
    obtain ⟨before, after, split, kept⟩ := ih underway.leads_enterBranch.1
      (retains_of_push through rfl rfl)
    refine ⟨branchImprints settings scope walk earlier walk ++ before,
      after ++ branchImprints settings scope walk later (visit settings scope branch
        (walk.enterBranch (throughBranches settings scope walk earlier walk))), ?_, ?_⟩
    · simp only [imprints, branchImprints_append, branchImprints, split, List.append_assoc]
    · rwa [← List.append_assoc]
  | reference _ _ ih | animateRef _ _ _ ih =>
    rw [imprints]
    exact ih leads retains

/-- The walk at the end of an animated step, before its styles are written. -/
def reachEnd (scope : Params ν) (timing : Timing ν) (walk : Traversal ν) : Traversal ν :=
  (walk.awaitPayload scope timing).pass (timing.resolve scope).1.duration

/-- An animated step ends on its timeline, when its delay and its duration have passed. -/
theorem reachEnd_eq {walk : Traversal Rat} (leads : walk.Leads) (scope : Params Rat)
    (timing : Timing Rat) :
    (walk.reachEnd scope timing).current = walk.current ∧
      (walk.reachEnd scope timing).now =
        walk.now + ((timing.resolve scope).1.delay + (timing.resolve scope).1.duration) ∧
      (walk.stage.timeline walk.current).cursor +
          ((timing.resolve scope).1.delay + (timing.resolve scope).1.duration) =
        ((walk.reachEnd scope timing).stage.timeline walk.current).cursor := by
  have nonneg := (timing.nonnegative_resolve scope).duration
  have waited := slot_awaitPayload leads scope timing
  have passed := slot_pass waited.leads nonneg
  have stays : (walk.reachEnd scope timing).current = walk.current := by
    unfold reachEnd awaitPayload wait
    split <;> rfl
  have now : (walk.reachEnd scope timing).now =
      walk.now + ((timing.resolve scope).1.delay + (timing.resolve scope).1.duration) := by
    rw [reachEnd, now_pass waited.leads nonneg, now_awaitPayload leads, add_assoc]
  have start : ((walk.reachEnd scope timing).stage.timeline walk.current).start =
      (walk.stage.timeline walk.current).start := (waited.trans passed).prolonged.start
  refine ⟨stays, now, ?_⟩
  have there : (walk.reachEnd scope timing).now = (walk.stage.timeline walk.current).start +
      ((walk.reachEnd scope timing).stage.timeline walk.current).cursor := by
    rw [← start, Traversal.now, stays]
    rfl
  have here : walk.now = (walk.stage.timeline walk.current).start +
      (walk.stage.timeline walk.current).cursor := rfl
  rw [there, here, add_assoc] at now
  exact (add_left_cancel now).symm

/-- What is put in at the end of an animated step. -/
theorem imprint_reachEnd {walk : Traversal Rat} (leads : walk.Leads) (scope : Params Rat)
    (timing : Timing Rat) (styles : Option (Styles Rat)) :
    (walk.reachEnd scope timing).imprint styles =
      ⟨walk.current,
        walk.now + ((timing.resolve scope).1.delay + (timing.resolve scope).1.duration),
        (walk.stage.timeline walk.current).cursor +
          ((timing.resolve scope).1.delay + (timing.resolve scope).1.duration), styles⟩ := by
  obtain ⟨stays, now, cursor⟩ := reachEnd_eq leads scope timing
  rw [imprint, now, stays, cursor]

end Traversal

/-! ## What is emitted -/

/-- What came last at a place is what its keyframe was given last. -/
theorem imprinted_of_last {earlier later : List (Imprint Rat)} {imprint : Imprint Rat}
    {property : String} {value : Value Rat} (written : imprint.value? property = some value)
    (last : ∀ other ∈ later, other.reaches property imprint.timeline imprint.cursor = false) :
    imprinted (earlier ++ imprint :: later) property imprint.timeline imprint.cursor =
      some value := by
  obtain ⟨styles, present, found⟩ := Option.bind_eq_some_iff.1 written
  obtain ⟨id, time, cursor, _⟩ := imprint
  subst present
  rw [← List.singleton_append, ← List.append_assoc, imprinted_append_of_missed last,
    imprinted_write, found, Option.some_or]

/-- **What a timeline was given last behind its start, an instruction shows.** -/
theorem Tree.keyframe_of_imprint (tree : Tree Rat) {settings : Settings Rat}
    (frame : 0 ≤ settings.frameLength) (starting destination : Styles Rat) (scope : Params Rat)
    {imprint : Imprint Rat}
    (member : imprint ∈ tree.imprints settings starting destination scope)
    (extended : 0 < imprint.cursor) :
    ∃ instruction ∈ (tree.compile settings starting destination scope).1,
      instruction = ((tree.landedStage settings starting destination scope).timeline
        imprint.timeline).instruction ∧
      ∃ keyframe ∈ instruction.keyframes, ∃ offset,
        keyframe.get? offsetKey = some (.number offset) ∧
          instruction.delay + offset * instruction.duration = imprint.time ∧
            ∀ property value, property ≠ offsetKey → property ≠ easingKey →
              imprinted (tree.imprints settings starting destination scope) property
                imprint.timeline imprint.cursor = some value →
                  keyframe.get? property = some value := by
  have timed := (tree.wellTimed_landedStage frame starting destination scope).timeline
    imprint.timeline
  -- Where the keyframes stand is the same for all properties, so any of them tells.
  have kept := tree.keeps_landedStage frame starting destination scope
    (by decide : "" ≠ offsetKey) (by decide)
  have bound := kept.opened imprint member
  obtain ⟨time, standing⟩ := (kept.strands _ bound).opened imprint member rfl
  rw [Stage.strand, Timeline.times_strand] at standing
  have styled := Timeline.hasStyling_of_time timed.settled standing extended.ne'
  obtain ⟨shown, present, stands⟩ := List.mem_map.1 standing
  obtain ⟨offset, emitted, reached⟩ := Timeline.emit_mem_keyframes timed present (stands ▸ extended)
  refine ⟨_, Stage.instruction_mem bound styled, rfl, _, emitted, offset,
    Timeline.get?_emit_offset _ _ _, ?_, ?_⟩
  · rw [time, ← stands, ← reached]
    rfl
  · intro property value free unreserved given
    have keeps := (tree.keeps_landedStage frame starting destination scope free
      unreserved).strands _ bound
    have own : shown.styles.get? property = some value :=
      keeps.frames (shown.time, shown.styles.get? property) (List.mem_map_of_mem present) value
        (stands.symm ▸ given)
    rw [Timeline.get?_emit _ _ _ free, own, Option.some_or]

/-- **No animated write is lost.** For every animated step with styles that the walk comes to, and
that takes time, an instruction has a keyframe at the end of the step. It shows every property of
the styles that was not written or marked again later, on the same timeline at the same local time.
The write of the step is the first one there: whatever was put in on its timeline before, stands
before the end of the step. -/
theorem Tree.compile_keeps_animated_writes (tree : Tree Rat) (settings : Settings Rat)
    (starting destination : Styles Rat) (scope : Params Rat) (frame : 0 ≤ settings.frameLength)
    {inner : Params Rat} {entry : Traversal Rat} {timing : Timing Rat} {step : StyleStep Rat}
    (met : Traversal.Meets settings scope (.start starting) tree inner entry
      (.animate timing (some (.style step))))
    (lasts : 0 < (timing.resolve inner).1.delay + (timing.resolve inner).1.duration) :
    ∃ earlier imprint later,
      tree.imprints settings starting destination scope = earlier ++ imprint :: later ∧
        imprint = ⟨entry.current,
          entry.now + ((timing.resolve inner).1.delay + (timing.resolve inner).1.duration),
          (entry.stage.timeline entry.current).cursor +
            ((timing.resolve inner).1.delay + (timing.resolve inner).1.duration),
          some (step.fill inner).styles⟩ ∧
        (∀ other ∈ earlier, other.timeline = imprint.timeline → other.cursor < imprint.cursor) ∧
      ∃ instruction ∈ (tree.compile settings starting destination scope).1,
        instruction = ((tree.landedStage settings starting destination scope).timeline
          entry.current).instruction ∧
        ∃ keyframe ∈ instruction.keyframes, ∃ offset,
          keyframe.get? offsetKey = some (.number offset) ∧
            instruction.delay + offset * instruction.duration =
                entry.now + ((timing.resolve inner).1.delay + (timing.resolve inner).1.duration) ∧
              ∀ property value, property ≠ offsetKey → property ≠ easingKey →
                (step.fill inner).styles.get? property = some value →
                  (∀ other ∈ later, other.timeline = imprint.timeline →
                    other.cursor = imprint.cursor → other.touches property = false) →
                      keyframe.get? property = some value := by
  obtain ⟨started, _⟩ := Traversal.leads_start starting
  have leads := met.leads frame started
  -- Which property is asked for makes no difference to where the imprints stand.
  obtain ⟨before, after, split, retains⟩ := met.exists_retains frame
    (by decide : "" ≠ offsetKey) (by decide) started
    (Traversal.retains_start (by decide) starting)
  have put : tree.imprints settings starting destination scope =
      (Traversal.beginning.imprint (some starting) :: before) ++
        (entry.reachEnd inner timing).imprint (some (step.fill inner).styles) ::
          (after ++ [(Traversal.visit settings scope tree (.start starting)).imprint
            (some destination)]) := by
    rw [Tree.imprints, split]
    simp only [List.cons_append, List.append_assoc]
    rfl
  rw [Traversal.imprint_reachEnd leads] at put
  have extended : 0 < (entry.stage.timeline entry.current).cursor +
      ((timing.resolve inner).1.delay + (timing.resolve inner).1.duration) :=
    add_pos_of_nonneg_of_pos leads.cursor_nonneg lasts
  refine ⟨_, _, _, put, rfl, fun other member there => ?_, ?_⟩
  · exact (retains.past other member there).trans_lt (lt_add_of_pos_right _ lasts)
  obtain ⟨instruction, emitted, frozen, keyframe, shown, offset, numbered, ends, shows⟩ :=
    tree.keyframe_of_imprint frame starting destination scope
      (put ▸ List.mem_append_right _ List.mem_cons_self) extended
  refine ⟨instruction, emitted, frozen, keyframe, shown, offset, numbered, ends, ?_⟩
  intro property value free unreserved written last
  refine shows property value free unreserved ?_
  rw [put]
  refine imprinted_of_last written fun other member => ?_
  refine Bool.eq_false_iff.2 fun reached => ?_
  obtain ⟨there, stands, touched⟩ := Imprint.reaches_iff.1 reached
  exact Bool.false_ne_true ((last other member there stands).symm.trans touched)

/-- A card is shown and hidden at once, and then shown again for a time that a parameter gives,
while it turns red. -/
def appearingCard : Tree Rat :=
  .group
    [.sequence
      [.animateTo (.millis 50) (.ofEntries [("opacity", .number 1)]),
        .animateTo (.millis 0) (.ofEntries [("opacity", .number 0)]),
        .reference (.animateTo (.expression "\x7b\x7btime\x7d\x7d")
          (.ofEntries [("opacity", .number 1)])) (.ofList [("time", .text "100ms")])],
    .animateTo (.millis 80) (.ofEntries [("color", .text "red")])]

/-- The card is shown at the end of the step behind the parameter. The same styles were written
before and replaced there, but nothing replaced the write of this step. -/
theorem keeps_animated_writes_of_appearingCard :
    0 ≤ (Settings.standard : Settings Rat).frameLength ∧
      ∃ inner entry timing step,
        Traversal.Meets Settings.standard ∅ (.start (.ofList [("opacity", .number 0)]))
            appearingCard inner entry (.animate timing (some (.style step))) ∧
          0 < (timing.resolve inner).1.delay + (timing.resolve inner).1.duration ∧
          ∃ instruction ∈ (appearingCard.compile Settings.standard
              (.ofList [("opacity", .number 0)]) ∅ ∅).1,
            ∃ keyframe ∈ instruction.keyframes, ∃ offset,
              keyframe.get? offsetKey = some (.number offset) ∧
                instruction.delay + offset * instruction.duration = 150 ∧
                  keyframe.get? "opacity" = some (.number 1) := by
  have frame : 0 ≤ (Settings.standard : Settings Rat).frameLength := by decide
  have met : Traversal.Meets Settings.standard ∅ (.start (.ofList [("opacity", .number 0)]))
      appearingCard (referenceScope (.ofList [("time", .text "100ms")]) ∅) _
        (.animate (.expression "\x7b\x7btime\x7d\x7d")
          (some (.style (.ofEntries [("opacity", .number 1)])))) :=
    .branch [] [.animateTo (.millis 80) (.ofEntries [("color", .text "red")])]
      (.step [.animateTo (.millis 50) (.ofEntries [("opacity", .number 1)]),
          .animateTo (.millis 0) (.ofEntries [("opacity", .number 0)])] []
        (.reference (.ofList [("time", .text "100ms")]) (.here _ _ _)))
  have lasts : 0 < ((Timing.expression "\x7b\x7btime\x7d\x7d" : Timing Rat).resolve
      (referenceScope (.ofList [("time", .text "100ms")]) ∅)).1.delay +
        ((Timing.expression "\x7b\x7btime\x7d\x7d" : Timing Rat).resolve
          (referenceScope (.ofList [("time", .text "100ms")]) ∅)).1.duration := by decide +kernel
  obtain ⟨earlier, imprint, later, log, put, _, instruction, emitted, _, keyframe, shown, offset,
    numbered, ends, shows⟩ := appearingCard.compile_keeps_animated_writes Settings.standard
      (.ofList [("opacity", .number 0)]) ∅ ∅ frame met lasts
  refine ⟨frame, _, _, _, _, met, lasts, instruction, emitted, keyframe, shown, offset, numbered,
    ends.trans (by decide +kernel), ?_⟩
  refine shows "opacity" (.number 1) (by decide) (by decide) (by decide +kernel) ?_
  -- There is one imprint only at the end of the step, and that is the one of the step.
  have once : (appearingCard.imprints Settings.standard (.ofList [("opacity", .number 0)]) ∅
      ∅).countP (fun other => other.timeline == 1 && other.cursor == 150) = 1 := by decide +kernel
  have timeline : imprint.timeline = 1 := (congrArg Imprint.timeline put).trans (by decide +kernel)
  have cursor : imprint.cursor = 150 := (congrArg Imprint.cursor put).trans (by decide +kernel)
  rw [log, List.countP_append, List.countP_cons_of_pos (by simp [timeline, cursor])] at once
  have absent : later.countP (fun other => other.timeline == 1 && other.cursor == 150) = 0 := by
    omega
  intro other member there stands
  refine absurd ?_ (List.countP_eq_zero.1 absent other member)
  simp [there, stands, timeline, cursor]

/-- A card fades in, and then holds still for no time. -/
def fadeThenHold : Tree Rat :=
  .sequence
    [.animateTo (.millis 100) (.ofEntries [("opacity", .number 1)]), .animateEmpty (.millis 0)]

/-- No other write of the opacity follows, but no keyframe shows it. -/
theorem fadeThenHold_never_shows :
    (∃ entry, Traversal.Meets Settings.standard ∅ (.start (.ofList [("opacity", .number 0)]))
        fadeThenHold ∅ entry
          (.animate (.millis 100) (some (.style (.ofEntries [("opacity", .number 1)]))))) ∧
      ((fadeThenHold.imprints Settings.standard (.ofList [("opacity", .number 0)]) ∅ ∅).filterMap
        fun imprint => (imprint.value? "opacity").map fun value => (imprint.time, value)) =
          [(0, .number 0), (100, .number 1)] ∧
      ∀ instruction ∈ (fadeThenHold.compile Settings.standard
          (.ofList [("opacity", .number 0)]) ∅ ∅).1,
        ∀ keyframe ∈ instruction.keyframes, keyframe.get? "opacity" ≠ some (.number 1) := by
  refine ⟨⟨_, .step [] [.animateEmpty (.millis 0)] (.here _ _ _)⟩, ?_, ?_⟩
  · decide +kernel
  · decide +kernel

end Storyboard
