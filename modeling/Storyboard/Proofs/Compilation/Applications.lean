import Storyboard.Proofs.Compilation.Ledger

/-!
# The styles that a walk writes

`Traversal.applications` lists the styles that the visit of a tree writes, in the order in which it
writes them, each with its scope and the absolute time of the cursor. These are the styles of
animated steps, bare styles, and the steps of keyframe lists.

Of each property they make the writes that the ledger of the visit has, in the same order
(`Traversal.writes_ledger`); what else the ledger has was carried from one timeline to another.
-/

set_option autoImplicit false

namespace Storyboard

variable {ν : Type}

/-- The values that a ledger has by writes, in order, with their times. -/
def writtenValues (ledger : List (LedgerEntry ν)) : List (Stamped ν) :=
  (ledger.filter fun entry => !entry.carried).map LedgerEntry.stamped

theorem writtenValues_append (ledger more : List (LedgerEntry ν)) :
    writtenValues (ledger ++ more) = writtenValues ledger ++ writtenValues more := by
  simp only [writtenValues, List.filter_append, List.map_append]

theorem writtenValues_of_carried {ledger : List (LedgerEntry ν)}
    (carried : ∀ entry ∈ ledger, entry.carried = true) : writtenValues ledger = [] := by
  have none : (ledger.filter fun entry => !entry.carried) = [] := by
    refine List.filter_eq_nil_iff.2 fun entry member => ?_
    rw [carried entry member]
    exact Bool.false_ne_true
  rw [writtenValues, none, List.map_nil]

variable [Scalar ν]

theorem Holding.carried_of_mem_carryAll {target : Nat} :
    ∀ (sources : List Nat) {holding : Holding ν},
      ∀ entry ∈ holding.carryAll target sources, entry.carried = true
  | [], _, _, member => absurd member List.not_mem_nil
  | source :: rest, _, entry, member => by
    rcases List.mem_append.1 member with first | later
    · exact carried_of_mem_carry entry first
    · exact carried_of_mem_carryAll rest entry later

/-- A style that is written in a scope at an absolute time. -/
structure Application (ν : Type) where
  step : StyleStep ν
  scope : Params ν
  time : ν

/-- The value that an application gives a property, with its time. -/
def Application.value? (property : String) (application : Application ν) : Option (Stamped ν) :=
  ((application.step.fill application.scope).styles.get? property).map fun value =>
    ⟨application.time, value⟩

namespace Traversal

/-- The applications of the steps of a keyframe list. -/
def keyframeApplications (scope : Params ν) (duration : ν) :
    List (StyleStep ν × ν) → Traversal ν → List (Application ν)
  | [], _ => []
  | (step, offset) :: rest, walk =>
    let moved := walk.modifyCurrent fun timeline => timeline.forwardTo (offset * duration)
    ⟨step, scope, moved.now⟩ ::
      keyframeApplications scope duration rest (moved.writeStyle scope step none)

/-- The applications of an animated step. -/
def animateApplications (scope : Params ν) (timing : Timing ν) (payload : Option (Payload ν))
    (walk : Traversal ν) : List (Application ν) :=
  let timings := (timing.resolve scope).1
  let waited := walk.awaitPayload scope timing
  match payload with
  | some (.keyframes steps) =>
    (waited.forkKeyframes timings).keyframeApplications scope timings.duration
      (steps.zip (keyframeOffsets steps))
  | some (.style step) => [⟨step, scope, (waited.pass timings.duration).now⟩]
  | none => []

mutual

/-- The applications that the visit of a tree makes, in order. -/
def applications (settings : Settings ν) (scope : Params ν) :
    Tree ν → Traversal ν → List (Application ν)
  | .sequence steps, walk => stepApplications settings scope steps (walk.enterSequence settings)
  | .group branches, walk => branchApplications settings scope walk branches walk
  | .animate timing payload, walk => walk.animateApplications scope timing payload
  | .style step, walk => [⟨step, scope, (walk.approachStyle settings).now⟩]
  | .reference animation defaults, walk =>
    applications settings (referenceScope defaults scope) animation walk
  | .animateRef animation defaults overrides, walk =>
    applications settings (invocationScope defaults scope overrides) animation walk
  | _, _ => []

/-- The applications of steps that run one after the other. -/
def stepApplications (settings : Settings ν) (scope : Params ν) :
    List (Tree ν) → Traversal ν → List (Application ν)
  | [], _ => []
  | step :: rest, walk =>
    applications settings scope step walk ++
      stepApplications settings scope rest (visit settings scope step walk)

/-- The applications of the branches of a group, one branch after the other. -/
def branchApplications (settings : Settings ν) (scope : Params ν) (entry : Traversal ν) :
    List (Tree ν) → Traversal ν → List (Application ν)
  | [], _ => []
  | branch :: rest, walk =>
    applications settings scope branch (entry.enterBranch walk) ++
      branchApplications settings scope entry rest
        (visit settings scope branch (entry.enterBranch walk))

end

/-! ## The writes of the applications -/

/-- A style that is written has one entry in the ledger, for each property that it gives. -/
theorem writtenValues_writeLedger (property : String) (scope : Params ν) (step : StyleStep ν)
    (walk : Traversal ν) :
    writtenValues (walk.writeLedger property (step.fill scope).styles) =
      [(⟨step, scope, walk.now⟩ : Application ν)].filterMap (Application.value? property) := by
  simp only [writeLedger, Application.value?, List.filterMap_cons, List.filterMap_nil]
  cases (step.fill scope).styles.get? property <;> rfl

theorem writes_stepsLedger (property : String) (scope : Params ν) (duration : ν) :
    ∀ (steps : List (StyleStep ν × ν)) (walk : Traversal ν),
      writtenValues (walk.stepsLedger property scope duration steps) =
        (walk.keyframeApplications scope duration steps).filterMap (Application.value? property)
  | [], _ => rfl
  | (step, offset) :: rest, walk => by
    rw [stepsLedger, keyframeApplications, writtenValues_append, writtenValues_writeLedger,
      writes_stepsLedger property scope duration rest, ← List.filterMap_append,
      List.singleton_append]

theorem writes_animateLedger (property : String) (scope : Params ν) (timing : Timing ν)
    (payload : Option (Payload ν)) (walk : Traversal ν) :
    writtenValues (walk.animateLedger property scope timing payload) =
      (walk.animateApplications scope timing payload).filterMap (Application.value? property) := by
  cases payload with
  | none => rfl
  | some payload =>
    cases payload with
    | keyframes steps =>
      simp only [animateLedger, animateApplications, keyframesLedger]
      rw [writtenValues_append, writes_stepsLedger,
        writtenValues_of_carried Holding.carried_of_mem_carry, List.append_nil]
    | style step => exact writtenValues_writeLedger property scope step _

mutual

/-- **The writes of the ledger are those of the applications**, in order. -/
theorem writes_ledger (property : String) (settings : Settings ν) :
    ∀ (tree : Tree ν) (scope : Params ν) (walk : Traversal ν),
      writtenValues (ledger property settings scope tree walk) =
        (applications settings scope tree walk).filterMap (Application.value? property)
  | .sequence steps, scope, walk => writes_sequenceLedger property settings steps scope _
  | .group branches, scope, walk => by
    simp only [ledger, applications]
    rw [writtenValues_append, writes_branchRuns property settings branches scope,
      writtenValues_of_carried (Holding.carried_of_mem_carryAll _), List.append_nil]
  | .animate timing payload, scope, walk => writes_animateLedger property scope timing payload walk
  | .style step, scope, walk => writtenValues_writeLedger property scope step _
  | .reference animation defaults, scope, walk => by
    rw [ledger, applications]
    exact writes_ledger property settings animation _ walk
  | .animateRef animation defaults overrides, scope, walk => by
    rw [ledger, applications]
    exact writes_ledger property settings animation _ walk
  | .state .., _, _ => rfl
  | .transition .., _, _ => rfl
  | .keyframes .., _, _ => rfl
  | .trigger .., _, _ => rfl
  | .animateChild .., _, _ => rfl
  | .query .., _, _ => rfl
  | .stagger .., _, _ => rfl

theorem writes_sequenceLedger (property : String) (settings : Settings ν) :
    ∀ (steps : List (Tree ν)) (scope : Params ν) (walk : Traversal ν),
      writtenValues (sequenceLedger property settings scope steps walk) =
        (stepApplications settings scope steps walk).filterMap (Application.value? property)
  | [], _, _ => rfl
  | step :: rest, scope, walk => by
    rw [sequenceLedger, stepApplications, writtenValues_append, List.filterMap_append,
      writes_ledger property settings step, writes_sequenceLedger property settings rest]

theorem writes_branchRuns (property : String) (settings : Settings ν) :
    ∀ (branches : List (Tree ν)) (scope : Params ν) (entry walk : Traversal ν),
      writtenValues ((branchRuns property settings scope entry branches walk).flatMap
          BranchRun.ledger) =
        (branchApplications settings scope entry branches walk).filterMap
          (Application.value? property)
  | [], _, _, _ => rfl
  | branch :: rest, scope, entry, walk => by
    simp only [branchRuns, List.flatMap_cons]
    rw [branchApplications, writtenValues_append, List.filterMap_append,
      writes_ledger property settings branch, writes_branchRuns property settings rest]

end

end Traversal

end Storyboard
