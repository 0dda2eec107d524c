import Storyboard.Proofs.Compilation.Holdings
import Storyboard.Proofs.Compilation.Steps

/-!
# The ledger of a walk

Every value of one property that a walk over a tree writes, and every value that it carries from
one timeline to another, in the order in which this happens. `Traversal.ledger` collects these
entries by recursion over the tree: each write with the timeline that the walk is on and the time
of its cursor, and at the end of a keyframe list or a group the values that are carried back. The
branches of a group are kept apart (`Traversal.branchRuns`), each with its own entries and the
timeline that it ends on.

The ledger accounts for everything: posting it to what the stage held before the visit gives what
the stage holds after it. Moreover a visit touches only the timeline that it begins on and
timelines that it opens itself, and it ends on one of these. `Stage.Course` says both, and
`Traversal.course_visit` proves it for the visit of any tree.
-/

set_option autoImplicit false

namespace Storyboard

variable {ν : Type} [Scalar ν]

/-! ## The entries of a walk -/

/-- The branch of a group: what it entered, and the timeline that it ended on. -/
structure BranchRun (ν : Type) where
  ledger : List (LedgerEntry ν)
  last : Nat

/-- The entries by which several timelines are folded into one, in order. -/
def Holding.carryAll (target : Nat) : List Nat → Holding ν → List (LedgerEntry ν)
  | [], _ => []
  | source :: rest, holding =>
    holding.carry target source ++
      carryAll target rest (holding.post (holding.carry target source))

namespace Traversal

/-- The walk before the starting styles are written. -/
def beginning : Traversal ν :=
  ⟨Stage.empty.create 0, 0, none, []⟩

/-- The entry by which styles are written at the cursor. -/
def writeLedger (property : String) (styles : Styles ν) (walk : Traversal ν) :
    List (LedgerEntry ν) :=
  match styles.get? property with
  | some value => [⟨walk.current, ⟨walk.now, value⟩, false⟩]
  | none => []

/-- Writes styles at the cursor. -/
def write (styles : Styles ν) (easing : Option String) (walk : Traversal ν) : Traversal ν :=
  { walk with stage := walk.stage.write walk.current styles easing }

/-- The walk in front of a bare style. -/
def approachStyle (settings : Settings ν) (walk : Traversal ν) : Traversal ν :=
  if walk.previous = some .animate then
    walk.modifyCurrent fun timeline => timeline.forwardFrame settings.frameLength
  else walk

/-- The entries of the steps of a keyframe list. -/
def stepsLedger (property : String) (scope : Params ν) (duration : ν) :
    List (StyleStep ν × ν) → Traversal ν → List (LedgerEntry ν)
  | [], _ => []
  | (step, offset) :: rest, walk =>
    let moved := walk.modifyCurrent fun timeline => timeline.forwardTo (offset * duration)
    moved.writeLedger property (step.fill scope).styles ++
      stepsLedger property scope duration rest (moved.writeStyle scope step none)

/-- The fork on which a keyframe list runs. -/
def forkKeyframes (timings : Timings ν) (walk : Traversal ν) : Traversal ν :=
  walk.branch.modifyCurrent fun timeline => { timeline with easing := timings.easing }

/-- The entries of a keyframe list, and of folding its fork back. -/
def keyframesLedger (property : String) (scope : Params ν) (steps : List (StyleStep ν))
    (timings : Timings ν) (walk : Traversal ν) : List (LedgerEntry ν) :=
  let forked := walk.forkKeyframes timings
  let ran := writeKeyframes scope timings.duration (steps.zip (keyframeOffsets steps)) forked
  stepsLedger property scope timings.duration (steps.zip (keyframeOffsets steps)) forked ++
    (ran.stage.holding property).carry walk.current ran.current

/-- The entries of an animated step; an empty one writes nothing. -/
def animateLedger (property : String) (scope : Params ν) (timing : Timing ν)
    (payload : Option (Payload ν)) (walk : Traversal ν) : List (LedgerEntry ν) :=
  let timings := (timing.resolve scope).1
  let waited := walk.awaitPayload scope timing
  match payload with
  | some (.keyframes steps) => waited.keyframesLedger property scope steps timings
  | some (.style step) =>
    (waited.pass timings.duration).writeLedger property (step.fill scope).styles
  | none => []

/-- The fork on which a branch of a group runs. -/
def enterBranch (entry walk : Traversal ν) : Traversal ν :=
  { walk with current := entry.current, previous := entry.previous }.branch

theorem visitBranches_cons (settings : Settings ν) (scope : Params ν) (entry walk : Traversal ν)
    (branch : Tree ν) (rest : List (Tree ν)) (ends : List Nat) (furthest : ν) :
    visitBranches settings scope entry (branch :: rest) ends furthest walk =
      visitBranches settings scope entry rest
        (ends ++ [(visit settings scope branch (entry.enterBranch walk)).current])
        (Scalar.larger furthest (visit settings scope branch (entry.enterBranch walk)).now)
        (visit settings scope branch (entry.enterBranch walk)) :=
  rfl

/-- The walk behind the branches of a group, before they are folded back. -/
def throughBranches (settings : Settings ν) (scope : Params ν) (entry : Traversal ν) :
    List (Tree ν) → Traversal ν → Traversal ν
  | [], walk => walk
  | branch :: rest, walk =>
    throughBranches settings scope entry rest
      (visit settings scope branch (entry.enterBranch walk))

mutual

/-- The entries that the visit of a tree makes for a property, in order. -/
def ledger (property : String) (settings : Settings ν) (scope : Params ν) :
    Tree ν → Traversal ν → List (LedgerEntry ν)
  | .sequence steps, walk =>
    sequenceLedger property settings scope steps (walk.enterSequence settings)
  | .group branches, walk =>
    let runs := branchRuns property settings scope walk branches walk
    let entered := runs.flatMap BranchRun.ledger
    entered ++ ((walk.stage.holding property).post entered).carryAll walk.current
      (runs.map BranchRun.last)
  | .animate timing payload, walk => walk.animateLedger property scope timing payload
  | .style step, walk => (walk.approachStyle settings).writeLedger property (step.fill scope).styles
  | .reference animation defaults, walk =>
    ledger property settings (referenceScope defaults scope) animation walk
  | .animateRef animation defaults overrides, walk =>
    ledger property settings (invocationScope defaults scope overrides) animation walk
  | _, _ => []

/-- The entries of steps that run one after the other. -/
def sequenceLedger (property : String) (settings : Settings ν) (scope : Params ν) :
    List (Tree ν) → Traversal ν → List (LedgerEntry ν)
  | [], _ => []
  | step :: rest, walk =>
    ledger property settings scope step walk ++
      sequenceLedger property settings scope rest (visit settings scope step walk)

/-- The branches of a group, each with its own entries. -/
def branchRuns (property : String) (settings : Settings ν) (scope : Params ν)
    (entry : Traversal ν) : List (Tree ν) → Traversal ν → List (BranchRun ν)
  | [], _ => []
  | branch :: rest, walk =>
    let visited := visit settings scope branch (entry.enterBranch walk)
    ⟨ledger property settings scope branch (entry.enterBranch walk), visited.current⟩ ::
      branchRuns property settings scope entry rest visited

end

end Traversal

/-! ## Courses -/

/-- From one stage to another the entries of a ledger were posted. They concern only the timeline
on which this began and timelines that were opened on the way, and it ended on one of these. -/
structure Stage.Course (property : String) (before : Stage ν) (origin : Nat)
    (ledger : List (LedgerEntry ν)) (after : Stage ν) (destination : Nat) : Prop where
  placed : destination < after.size
  grows : before.size ≤ after.size
  own : destination = origin ∨ before.size ≤ destination
  inside : ∀ entry ∈ ledger,
    (entry.timeline = origin ∨ before.size ≤ entry.timeline) ∧ entry.timeline < after.size
  holding : after.holding property = (before.holding property).post ledger

namespace Stage.Course

variable {property : String} {before middle after : Stage ν} {origin halfway destination : Nat}
  {first second ledger : List (LedgerEntry ν)}

theorem refl (placed : origin < before.size) : Course property before origin [] before origin :=
  ⟨placed, Nat.le_refl _, .inl rfl, fun _ member => absurd member List.not_mem_nil, rfl⟩

theorem trans (earlier : Course property before origin first middle halfway)
    (later : Course property middle halfway second after destination) :
    Course property before origin (first ++ second) after destination where
  placed := later.placed
  grows := Nat.le_trans earlier.grows later.grows
  own := by
    have startsHigh := earlier.grows
    rcases later.own with same | opened
    · rw [same]
      exact earlier.own
    · exact .inr (Nat.le_trans startsHigh opened)
  inside := by
    intro entry member
    rcases List.mem_append.1 member with made | made
    · obtain ⟨side, bound⟩ := earlier.inside entry made
      exact ⟨side, Nat.lt_of_lt_of_le bound later.grows⟩
    · obtain ⟨side, bound⟩ := later.inside entry made
      refine ⟨?_, bound⟩
      rcases side with same | opened
      · rw [same]
        exact earlier.own
      · exact .inr (Nat.le_trans earlier.grows opened)
  holding := by rw [later.holding, earlier.holding, Holding.post_append]

/-- Nothing is entered in front. -/
theorem silent_trans (earlier : Course property before origin [] middle halfway)
    (later : Course property middle halfway ledger after destination) :
    Course property before origin ledger after destination :=
  earlier.trans later

/-- Nothing is entered at the end. -/
theorem trans_silent (earlier : Course property before origin ledger middle halfway)
    (later : Course property middle halfway [] after destination) :
    Course property before origin ledger after destination := by
  have both := earlier.trans later
  rwa [List.append_nil] at both

/-- Changing a timeline without its summary enters nothing. -/
theorem modify (placed : origin < before.size) (id : Nat) (change : Timeline ν → Timeline ν)
    (kept : ∀ timeline, (change timeline).summary = timeline.summary) :
    Course property before origin [] (before.modify id change) origin where
  placed := (size_modify before id change).symm ▸ placed
  grows := Nat.le_of_eq (size_modify before id change).symm
  own := .inl rfl
  inside _ member := absurd member List.not_mem_nil
  holding := before.holding_modify id change kept property

/-- Going over to a new timeline enters nothing. -/
theorem fork (origin parent : Nat) (start : Option ν) (inherits : Bool) :
    Course property before origin [] (before.fork parent start inherits) before.size where
  placed := (size_push before _).symm ▸ Nat.lt_succ_self _
  grows := (size_push before _).symm ▸ Nat.le_succ _
  own := .inr (Nat.le_refl _)
  inside _ member := absurd member List.not_mem_nil
  holding := before.holding_fork parent start inherits property

/-- What begins on a new timeline ends on a new one. -/
theorem opened (ran : Course property before before.size ledger after destination) :
    before.size ≤ destination := by
  rcases ran.own with same | opened
  · exact Nat.le_of_eq same.symm
  · exact opened

/-- What begins on a new timeline concerns new ones only. -/
theorem inside_opened (ran : Course property before before.size ledger after destination) :
    ∀ entry ∈ ledger, before.size ≤ entry.timeline := by
  intro entry member
  rcases (ran.inside entry member).1 with same | opened
  · exact Nat.le_of_eq same.symm
  · exact opened

/-- What ran on a new timeline is followed by going back to where that forked off. -/
theorem back (placed : origin < before.size)
    (ran : Course property before before.size ledger after destination) :
    Course property before origin ledger after origin where
  placed := Nat.lt_of_lt_of_le placed ran.grows
  grows := ran.grows
  own := .inl rfl
  inside entry member := ⟨.inr (ran.inside_opened entry member), (ran.inside entry member).2⟩
  holding := ran.holding

/-- An empty step enters nothing. -/
theorem writeEmptyStep (placed : origin < before.size) (id : Nat) (easing : Option String) :
    Course property before origin [] (before.writeEmptyStep id easing) origin := by
  have size : (before.writeEmptyStep id easing).size = before.size :=
    size_eq_of_skeletons (skeletons_writeEmptyStep before id easing)
  refine ⟨size.symm ▸ placed, Nat.le_of_eq size.symm, .inl rfl, ?_,
    before.holding_writeEmptyStep id easing property⟩
  exact fun _ member => absurd member List.not_mem_nil

/-- Folding one timeline into another enters what is carried over. -/
theorem absorb (placed : origin < before.size) (source : Nat) :
    Course property before origin ((before.holding property).carry origin source)
      (before.absorb origin source) origin := by
  have size : (before.absorb origin source).size = before.size :=
    size_eq_of_skeletons (skeletons_absorb before origin source)
  refine ⟨size.symm ▸ placed, Nat.le_of_eq size.symm, .inl rfl, ?_,
    holding_absorb placed source property⟩
  intro entry member
  unfold Holding.carry at member
  split at member
  · exact absurd member List.not_mem_nil
  · split at member
    · rw [List.mem_singleton.1 member]
      exact ⟨.inl rfl, size.symm ▸ placed⟩
    · exact absurd member List.not_mem_nil

theorem absorbAll : ∀ (sources : List Nat) {before : Stage ν}, origin < before.size →
    Course property before origin ((before.holding property).carryAll origin sources)
      (sources.foldl (fun stage source => stage.absorb origin source) before) origin
  | [], _, placed => .refl placed
  | source :: rest, before, placed => by
    have first : Course property before origin ((before.holding property).carry origin source)
        (before.absorb origin source) origin := absorb placed source
    have others := absorbAll rest first.placed
    rw [first.holding] at others
    exact first.trans others

end Stage.Course

/-! ## The walk -/

namespace Traversal

/-- From one state of the walk to another the entries of a ledger were posted. -/
abbrev Course (property : String) (before : Traversal ν) (ledger : List (LedgerEntry ν))
    (after : Traversal ν) : Prop :=
  Stage.Course property before.stage before.current ledger after.stage after.current

/-- The walk is on a timeline of its stage. -/
def Placed (walk : Traversal ν) : Prop :=
  walk.current < walk.stage.size

/-- What keeps every skeleton does not move the cursor. -/
theorem now_eq {before after : Traversal ν}
    (same : after.stage.skeletons = before.stage.skeletons)
    (stays : after.current = before.current) : after.now = before.now := by
  rw [now, now, stays]
  exact Stage.now_eq_of_skeletons same before.current

omit [Scalar ν] in
theorem placed_of_skeletons {before after : Traversal ν} (placed : before.Placed)
    (same : after.stage.skeletons = before.stage.skeletons)
    (stays : after.current = before.current) : after.Placed := by
  unfold Placed at placed ⊢
  rw [stays, Stage.size_eq_of_skeletons same]
  exact placed

section Operations

variable {property : String} {walk : Traversal ν}

/-- Styles are written on the timeline that the walk is on. -/
theorem own_writeLedger {styles : Styles ν} :
    ∀ entry ∈ walk.writeLedger property styles,
      entry.timeline = walk.current ∧ entry.carried = false := by
  intro entry member
  unfold writeLedger at member
  split at member
  · rw [List.mem_singleton.1 member]
    exact ⟨rfl, rfl⟩
  · exact absurd member List.not_mem_nil

theorem timeline_modifyCurrent (placed : walk.Placed) (change : Timeline ν → Timeline ν) :
    (walk.modifyCurrent change).stage.timeline walk.current =
      change (walk.stage.timeline walk.current) :=
  (Stage.timeline_modify placed change walk.current).trans (if_pos rfl)

/-- A step of a keyframe list moves the cursor of its timeline and nothing else. -/
theorem skeleton_writeKeyframe (placed : walk.Placed) (scope : Params ν) (duration : ν)
    (step : StyleStep ν × ν) (id : Nat) :
    (walk.writeKeyframe scope duration step).stage.skeleton id =
      if id = walk.current then
        (walk.stage.skeleton walk.current).seek (Scalar.larger (step.2 * duration) 0)
      else walk.stage.skeleton id := by
  have wrote : (walk.writeKeyframe scope duration step).stage.skeletons =
      (walk.modifyCurrent fun timeline => timeline.forwardTo (step.2 * duration)).stage.skeletons :=
    Stage.skeletons_write _ _ _ _
  refine (Stage.skeleton_eq_of_skeletons wrote id).trans ?_
  refine (congrArg Timeline.skeleton (Stage.timeline_modify placed _ id)).trans ?_
  split
  · exact Timeline.skeleton_seek _ _
  · rfl

theorem size_writeKeyframe (scope : Params ν) (duration : ν) (step : StyleStep ν × ν) :
    (walk.writeKeyframe scope duration step).stage.size = walk.stage.size :=
  (Stage.size_eq_of_skeletons (Stage.skeletons_write _ _ _ _)).trans (Stage.size_modify _ _ _)

theorem placed_writeKeyframe (placed : walk.Placed) (scope : Params ν) (duration : ν)
    (step : StyleStep ν × ν) : (walk.writeKeyframe scope duration step).Placed :=
  Nat.lt_of_lt_of_eq placed (size_writeKeyframe scope duration step).symm

theorem course_seek (placed : walk.Placed) (time : Timeline ν → ν) :
    Course property walk [] (walk.modifyCurrent fun timeline => timeline.seek (time timeline)) := by
  refine Stage.Course.modify placed _ _ fun timeline => ?_
  unfold Timeline.seek
  split <;> rfl

theorem course_pass (placed : walk.Placed) (time : ν) : Course property walk [] (walk.pass time) :=
  course_seek placed fun timeline => Scalar.larger (timeline.cursor + time) 0

theorem course_write (free : property ≠ offsetKey) (placed : walk.Placed) (styles : Styles ν)
    (easing : Option String) :
    Course property walk (walk.writeLedger property styles) (walk.write styles easing) := by
  have size : (walk.stage.write walk.current styles easing).size = walk.stage.size :=
    Stage.size_eq_of_skeletons (Stage.skeletons_write _ _ _ _)
  have written := Stage.holding_write placed free styles easing
  refine ⟨size.symm ▸ placed, Nat.le_of_eq size.symm, .inl rfl, ?_, ?_⟩
  · intro entry member
    obtain ⟨there, _⟩ := own_writeLedger entry member
    exact ⟨.inl there, there ▸ size.symm ▸ placed⟩
  · refine written.trans ?_
    unfold writeLedger
    cases styles.get? property <;> rfl

theorem course_writeStyle (free : property ≠ offsetKey) (placed : walk.Placed) (scope : Params ν)
    (step : StyleStep ν) (easing : Option String) :
    Course property walk (walk.writeLedger property (step.fill scope).styles)
      (walk.writeStyle scope step easing) :=
  course_write free placed (step.fill scope).styles (easing.or (step.fill scope).easing)

theorem course_approachStyle (placed : walk.Placed) (settings : Settings ν) :
    Course property walk [] (walk.approachStyle settings) := by
  unfold approachStyle
  split
  · exact course_seek placed fun timeline => timeline.cursor + settings.frameLength
  · exact Stage.Course.refl placed

theorem course_writeKeyframes (free : property ≠ offsetKey) (scope : Params ν) (duration : ν) :
    ∀ (steps : List (StyleStep ν × ν)) {walk : Traversal ν}, walk.Placed →
      Course property walk (walk.stepsLedger property scope duration steps)
        (writeKeyframes scope duration steps walk)
  | [], _, placed => Stage.Course.refl placed
  | (step, offset) :: rest, walk, placed => by
    have moved : Course property walk []
        (walk.modifyCurrent fun timeline => timeline.forwardTo (offset * duration)) :=
      course_seek placed fun _ => Scalar.larger (offset * duration) 0
    have wrote := moved.silent_trans (course_writeStyle free moved.placed scope step none)
    exact wrote.trans (course_writeKeyframes free scope duration rest wrote.placed)

/-- The fork of a keyframe list is blank and begins where the cursor stands. -/
theorem skeleton_forkKeyframes (walk : Traversal ν) (timings : Timings ν) (id : Nat) :
    (walk.forkKeyframes timings).stage.skeleton id =
      if id = walk.stage.size then (Timeline.blank walk.now ∅).skeleton
      else walk.stage.skeleton id := by
  have eased : (walk.forkKeyframes timings).stage.skeletons = walk.branch.stage.skeletons :=
    Stage.skeletons_modify _ _ fun _ => rfl
  refine (Stage.skeleton_eq_of_skeletons eased id).trans ?_
  exact Stage.skeleton_push walk.stage _ id

theorem size_forkKeyframes (walk : Traversal ν) (timings : Timings ν) :
    (walk.forkKeyframes timings).stage.size = walk.stage.size + 1 :=
  (Stage.size_modify _ _ _).trans (Stage.size_push _ _)

theorem placed_forkKeyframes (walk : Traversal ν) (timings : Timings ν) :
    (walk.forkKeyframes timings).Placed := by
  rw [Placed, size_forkKeyframes]
  exact Nat.lt_succ_self walk.stage.size

theorem skeleton_forked (walk : Traversal ν) (timings : Timings ν) :
    (walk.forkKeyframes timings).stage.skeleton (walk.forkKeyframes timings).current =
      (Timeline.blank walk.now ∅).skeleton :=
  (skeleton_forkKeyframes walk timings _).trans (if_pos rfl)

/-- The fork of a keyframe list begins on a timeline of its own. -/
theorem course_forkKeyframes (property : String) (walk : Traversal ν) (timings : Timings ν) :
    Stage.Course property walk.stage walk.stage.size [] (walk.forkKeyframes timings).stage
      (walk.forkKeyframes timings).current := by
  have branched : Stage.Course property walk.stage walk.stage.size [] walk.branch.stage
      walk.stage.size := .fork walk.stage.size walk.current none true
  exact branched.trans_silent (.modify branched.placed _ _ fun _ => rfl)

/-- Behind its steps, the fork of a keyframe list can be folded into where it came from. -/
theorem course_ranKeyframes (free : property ≠ offsetKey) (placed : walk.Placed)
    (scope : Params ν) (steps : List (StyleStep ν × ν)) (timings : Timings ν) :
    Stage.Course property walk.stage walk.current
      ((walk.forkKeyframes timings).stepsLedger property scope timings.duration steps)
      (writeKeyframes scope timings.duration steps (walk.forkKeyframes timings)).stage
      walk.current := by
  have forked := course_forkKeyframes property walk timings
  have ran := forked.silent_trans
    (course_writeKeyframes free scope timings.duration steps forked.placed)
  exact ran.back placed

theorem course_runKeyframes (free : property ≠ offsetKey) (placed : walk.Placed)
    (scope : Params ν) (steps : List (StyleStep ν)) (timings : Timings ν) :
    Course property walk (walk.keyframesLedger property scope steps timings)
      (walk.runKeyframes scope steps timings) := by
  have returned := course_ranKeyframes free placed scope (steps.zip (keyframeOffsets steps)) timings
  exact (returned.trans (.absorb returned.placed _)).trans_silent (.fork _ _ _ false)

theorem course_awaitPayload (placed : walk.Placed) (scope : Params ν) (timing : Timing ν) :
    Course property walk [] (walk.awaitPayload scope timing) := by
  unfold awaitPayload wait
  split
  · have passed : Course property walk []
        ((walk.report (timing.resolve scope).2).pass (timing.resolve scope).1.delay) :=
      course_pass placed _
    exact passed.trans_silent (.modify passed.placed _ _ fun _ => rfl)
  · exact Stage.Course.refl placed

theorem course_runAnimate (free : property ≠ offsetKey) (placed : walk.Placed) (scope : Params ν)
    (timing : Timing ν) (payload : Option (Payload ν)) :
    Course property walk (walk.animateLedger property scope timing payload)
      (walk.runAnimate scope timing payload) := by
  have waited : Course property walk [] (walk.awaitPayload scope timing) :=
    course_awaitPayload placed scope timing
  cases payload with
  | none =>
    rw [runAnimate_empty]
    have passed := waited.silent_trans (course_pass waited.placed (timing.resolve scope).1.duration)
    exact passed.trans_silent (.writeEmptyStep passed.placed _ _)
  | some payload =>
    cases payload with
    | keyframes steps =>
      rw [runAnimate_keyframes]
      exact waited.silent_trans (course_runKeyframes free waited.placed scope steps _)
    | style step =>
      rw [runAnimate_style]
      have passed := waited.silent_trans
        (course_pass waited.placed (timing.resolve scope).1.duration)
      exact passed.silent_trans (course_writeStyle free passed.placed scope step _)

theorem course_enterSequence (placed : walk.Placed) (settings : Settings ν) :
    Course property walk [] (walk.enterSequence settings) := by
  unfold enterSequence
  split
  · refine Stage.Course.modify placed _ _ fun timeline => ?_
    unfold Timeline.snapshot Timeline.forwardFrame Timeline.seek
    split <;> rfl
  · exact Stage.Course.refl placed

/-- The fork of a branch begins on a timeline of its own. -/
theorem course_enterBranch (property : String) (entry walk : Traversal ν) :
    Stage.Course property walk.stage walk.stage.size [] (entry.enterBranch walk).stage
      (entry.enterBranch walk).current :=
  .fork walk.stage.size entry.current none true

end Operations

/-- Visiting branches is passing through them and folding back what they end on. -/
theorem visitBranches_eq_leaveGroup (property : String) (settings : Settings ν)
    (scope : Params ν) (entry : Traversal ν) :
    ∀ (branches : List (Tree ν)) (ends : List Nat) (furthest : ν) (walk : Traversal ν),
      ∃ reached, visitBranches settings scope entry branches ends furthest walk =
        leaveGroup entry
          (ends ++ (branchRuns property settings scope entry branches walk).map BranchRun.last)
          reached (throughBranches settings scope entry branches walk)
  | [], ends, furthest, walk => by
    refine ⟨furthest, ?_⟩
    simp only [visitBranches, branchRuns, throughBranches, List.map_nil, List.append_nil]
  | branch :: rest, ends, furthest, walk => by
    have visited := visitBranches_eq_leaveGroup property settings scope entry rest
      (ends ++ [(visit settings scope branch (entry.enterBranch walk)).current])
      (Scalar.larger furthest (visit settings scope branch (entry.enterBranch walk)).now)
      (visit settings scope branch (entry.enterBranch walk))
    rw [List.append_assoc] at visited
    exact visited

theorem course_leaveGroup {property : String} {entry walk : Traversal ν} {ledger : List (LedgerEntry ν)}
    (through : Stage.Course property entry.stage entry.current ledger walk.stage entry.current)
    (sources : List Nat) (reached : ν) :
    Course property entry
      (ledger ++ ((entry.stage.holding property).post ledger).carryAll entry.current sources)
      (leaveGroup entry sources reached walk) := by
  have absorbed : Stage.Course property walk.stage entry.current
      ((walk.stage.holding property).carryAll entry.current sources)
      (sources.foldl (fun stage source => stage.absorb entry.current source) walk.stage)
      entry.current := .absorbAll sources through.placed
  rw [through.holding] at absorbed
  exact (through.trans absorbed).trans_silent (.fork _ _ _ false)

mutual

/-- **The ledger accounts for the visit of a tree**: posted to what the stage held before, it
gives what the stage holds after, and it concerns no timeline of the stage but the current one. -/
theorem course_visit {property : String} (free : property ≠ offsetKey) (settings : Settings ν) :
    ∀ (tree : Tree ν) (scope : Params ν) {walk : Traversal ν}, walk.Placed →
      Course property walk (ledger property settings scope tree walk)
        (visit settings scope tree walk)
  | .sequence steps, scope, walk, placed => by
    have entered : Course property walk [] (walk.enterSequence settings) :=
      course_enterSequence placed settings
    have visited := entered.silent_trans (course_visitSteps free settings steps scope entered.placed)
    simp only [visit, after, ledger]
    split
    · exact visited.trans_silent (.fork _ _ none false)
    · exact visited
  | .group branches, scope, walk, placed => by
    obtain ⟨reached, left⟩ := visitBranches_eq_leaveGroup property settings scope walk branches []
      walk.now walk
    have through := course_throughBranches free settings branches scope placed
    simp only [visit, after, ledger]
    rw [left]
    exact course_leaveGroup through _ reached
  | .animate timing payload, scope, _, placed => course_runAnimate free placed scope timing payload
  | .style step, scope, _, placed => by
    have moved : Course property _ [] _ := course_approachStyle placed settings
    exact moved.silent_trans (course_writeStyle free moved.placed scope step none)
  | .reference animation defaults, scope, _, placed => by
    simp only [visit, after, ledger]
    exact course_visit free settings animation _ placed
  | .animateRef animation defaults overrides, scope, _, placed => by
    simp only [visit, after, ledger]
    exact course_visit free settings animation _ placed
  | .state .., _, _, placed => Stage.Course.refl placed
  | .transition .., _, _, placed => Stage.Course.refl placed
  | .keyframes .., _, _, placed => Stage.Course.refl placed
  | .trigger .., _, _, placed => Stage.Course.refl placed
  | .animateChild .., _, _, placed => Stage.Course.refl placed
  | .query .., _, _, placed => Stage.Course.refl placed
  | .stagger .., _, _, placed => Stage.Course.refl placed

theorem course_visitSteps {property : String} (free : property ≠ offsetKey)
    (settings : Settings ν) :
    ∀ (steps : List (Tree ν)) (scope : Params ν) {walk : Traversal ν}, walk.Placed →
      Course property walk (sequenceLedger property settings scope steps walk)
        (visitSteps settings scope steps walk)
  | [], _, _, placed => Stage.Course.refl placed
  | step :: rest, scope, walk, placed => by
    have visited := course_visit free settings step scope placed
    rw [visitSteps, sequenceLedger]
    exact visited.trans (course_visitSteps free settings rest scope visited.placed)

theorem course_throughBranches {property : String} (free : property ≠ offsetKey)
    (settings : Settings ν) :
    ∀ (branches : List (Tree ν)) (scope : Params ν) {entry walk : Traversal ν},
      entry.current < walk.stage.size →
        Stage.Course property walk.stage entry.current
          ((branchRuns property settings scope entry branches walk).flatMap BranchRun.ledger)
          (throughBranches settings scope entry branches walk).stage entry.current
  | [], _, _, _, placed => Stage.Course.refl placed
  | branch :: rest, scope, entry, walk, placed => by
    have forked := course_enterBranch property entry walk
    have visited := (forked.silent_trans
      (course_visit free settings branch scope forked.placed)).back placed
    simp only [throughBranches, branchRuns, List.flatMap_cons]
    exact visited.trans (course_throughBranches free settings rest scope visited.placed)

end

end Traversal

end Storyboard
