import Mathlib.Data.List.Induction
import Storyboard.Proofs.OrderedMap.Lookup
import Storyboard.Proofs.Timeline.Skeleton

/-!
# What a stage holds of a property

Of one property a stage holds the shared value and, for each timeline, the last write in the
summary of that timeline (`Stage.holding`). Of all operations of a stage only writing a style and
folding one timeline into another change it, and each of them changes it by entries of one form: a
timeline takes a stamped value, and the value becomes the shared one (`Holding.enter`). An entry
is an own write of the timeline, or a write carried over from another one.

`Stage.holding_write` and `Stage.holding_absorb` give the entries of the two operations. The other
operations leave the holding as it is, the opening of a timeline included.
-/

set_option autoImplicit false

namespace Storyboard

variable {ν : Type}

/-- What a stage holds of one property. -/
structure Holding (ν : Type) where
  shared : Option (Value ν)
  summary : Nat → Option (Stamped ν)

/-- A timeline took a stamped value, by an own write or carried over from another timeline. -/
structure LedgerEntry (ν : Type) where
  timeline : Nat
  stamped : Stamped ν
  carried : Bool
deriving DecidableEq

/-- The value that all timelines share after the entries of a ledger: that of the last one. -/
def sharedValue (ledger : List (LedgerEntry ν)) : Option (Value ν) :=
  ledger.getLast?.map fun entry => entry.stamped.value

theorem sharedValue_append (ledger more : List (LedgerEntry ν)) :
    sharedValue (ledger ++ more) = (sharedValue more).or (sharedValue ledger) := by
  rw [sharedValue, List.getLast?_append, Option.map_or]
  rfl

namespace Holding

/-- The holding after an entry. -/
def enter (holding : Holding ν) (entry : LedgerEntry ν) : Holding ν where
  shared := some entry.stamped.value
  summary id := if id = entry.timeline then some entry.stamped else holding.summary id

/-- The holding after the entries of a ledger. -/
def post (holding : Holding ν) (ledger : List (LedgerEntry ν)) : Holding ν :=
  ledger.foldl enter holding

theorem post_append (holding : Holding ν) (ledger more : List (LedgerEntry ν)) :
    holding.post (ledger ++ more) = (holding.post ledger).post more :=
  List.foldl_append

theorem shared_post (holding : Holding ν) (ledger : List (LedgerEntry ν)) :
    (holding.post ledger).shared = (sharedValue ledger).or holding.shared := by
  induction ledger using List.reverseRecOn with
  | nil => rfl
  | append_singleton ledger last _ =>
    rw [post_append, sharedValue, List.getLast?_append]
    rfl

theorem summary_post (holding : Holding ν) (ledger : List (LedgerEntry ν)) (id : Nat) :
    (holding.post ledger).summary id =
      ((ledger.filter fun entry => entry.timeline == id).getLast?.map LedgerEntry.stamped).or
        (holding.summary id) := by
  induction ledger using List.reverseRecOn with
  | nil => rfl
  | append_singleton ledger last ih =>
    rw [post_append, List.filter_append]
    by_cases here : last.timeline = id
    · have kept : [last].filter (fun entry => entry.timeline == id) = [last] := by simp [here]
      rw [kept, List.getLast?_append]
      simp [post, enter, here]
    · have dropped : [last].filter (fun entry => entry.timeline == id) = [] := by simp [here]
      have apart : ¬id = last.timeline := fun same => here same.symm
      rw [dropped, List.append_nil, ← ih]
      simp [post, enter, apart]

theorem summary_post_of_absent (holding : Holding ν) {ledger : List (LedgerEntry ν)} {id : Nat}
    (absent : ∀ entry ∈ ledger, entry.timeline ≠ id) :
    (holding.post ledger).summary id = holding.summary id := by
  have none : ledger.filter (fun entry => entry.timeline == id) = [] :=
    List.filter_eq_nil_iff.2 fun entry member same => absent entry member (beq_iff_eq.1 same)
  rw [summary_post, none]
  rfl

end Holding

/-! ## Stages -/

namespace Stage

@[simp] theorem size_modify (stage : Stage ν) (id : Nat) (change : Timeline ν → Timeline ν) :
    (stage.modify id change).size = stage.size :=
  List.length_modify _ _ _

@[simp] theorem size_push (stage : Stage ν) (timeline : Timeline ν) :
    (stage.push timeline).size = stage.size + 1 := by
  simp only [size, push, List.length_append, List.length_singleton]

variable [Scalar ν]

/-- What the stage holds of a property. -/
def holding (stage : Stage ν) (property : String) : Holding ν :=
  ⟨stage.shared.get? property, fun id => (stage.timeline id).summary.get? property⟩

theorem timeline_modify {stage : Stage ν} {id : Nat} (opened : id < stage.size)
    (change : Timeline ν → Timeline ν) (other : Nat) :
    (stage.modify id change).timeline other =
      if other = id then change (stage.timeline id) else stage.timeline other := by
  simp only [timeline, get?, modify, List.getElem?_modify]
  by_cases here : other = id
  · subst here
    have found : stage.timelines[other]? = some (stage.timelines.get ⟨other, opened⟩) :=
      List.getElem?_eq_getElem opened
    simp [found]
  · have apart : ¬id = other := fun same => here same.symm
    cases stage.timelines[other]? <;> simp [here, apart]

theorem timeline_push (stage : Stage ν) (timeline : Timeline ν) (id : Nat) :
    (stage.push timeline).timeline id =
      if id = stage.size then timeline else stage.timeline id := by
  by_cases last : id = stage.size
  · subst last
    rw [if_pos rfl]
    simp [Stage.timeline, get?, push, size]
  · rw [if_neg last]
    unfold size at last
    simp only [Stage.timeline, get?, push, List.getElem?_append]
    split
    · rfl
    · next beyond =>
      rw [List.getElem?_eq_none (Nat.le_of_not_lt beyond), List.getElem?_eq_none]
      rw [List.length_singleton]
      omega

theorem skeleton_push (stage : Stage ν) (timeline : Timeline ν) (id : Nat) :
    (stage.push timeline).skeleton id =
      if id = stage.size then timeline.skeleton else stage.skeleton id := by
  rw [skeleton, timeline_push]
  split <;> rfl

/-- A change that keeps the summary of a timeline keeps the holdings of its stage. -/
theorem holding_modify (stage : Stage ν) (id : Nat) (change : Timeline ν → Timeline ν)
    (kept : ∀ timeline, (change timeline).summary = timeline.summary) (property : String) :
    (stage.modify id change).holding property = stage.holding property := by
  simp only [holding, Holding.mk.injEq]
  refine ⟨rfl, funext fun other => ?_⟩
  simp only [timeline, get?, modify, List.getElem?_modify]
  cases stage.timelines[other]? with
  | none => rfl
  | some timeline =>
    by_cases here : id = other
    · simp [here, kept]
    · simp [here]

/-- A timeline that has written nothing yet adds nothing to the holdings. -/
theorem holding_fork (stage : Stage ν) (parent : Nat) (start : Option ν) (inherits : Bool)
    (property : String) :
    (stage.fork parent start inherits).holding property = stage.holding property := by
  simp only [holding, fork, Holding.mk.injEq]
  refine ⟨rfl, funext fun id => ?_⟩
  rw [timeline_push]
  split
  · next last =>
    have beyond : stage.timelines[id]? = none := List.getElem?_eq_none (Nat.le_of_eq last.symm)
    simp only [timeline, get?, beyond]
    rfl
  · rfl

end Stage

/-! ## Writing -/

theorem Timeline.summary_capture (timeline : Timeline ν) (property : String)
    (known : Option (Value ν)) :
    (timeline.capture property known).summary = timeline.summary := by
  unfold capture
  split <;> rfl

theorem Timeline.summary_write [Scalar ν] (timeline : Timeline ν) (property : String)
    (value : Value ν) (known : Option (Value ν)) :
    (timeline.write property value known).summary =
      timeline.summary.insert property ⟨timeline.now, value⟩ := by
  simp only [write, adopt, editCurrent, editFrame, summary_capture]

namespace Stage

variable [Scalar ν]

theorem holding_easeSegment (stage : Stage ν) (id : Nat) (easing : Option String)
    (property : String) : (stage.easeSegment id easing).holding property = stage.holding property := by
  cases easing with
  | none => rfl
  | some easing =>
    exact stage.holding_modify id (fun timeline => timeline.easeSegment easing) (fun _ => rfl)
      property

/-- An empty step is no write: it leaves the holdings as they are. -/
theorem holding_writeEmptyStep (stage : Stage ν) (id : Nat) (easing : Option String)
    (property : String) :
    (stage.writeEmptyStep id easing).holding property = stage.holding property := by
  refine (holding_modify _ id _ (fun timeline => ?_) property).trans
    (stage.holding_easeSegment id easing property)
  refine foldl_keeps Timeline.summary (fun marked entry => ?_) _ timeline
  exact marked.summary_capture entry.1 (some entry.2)

omit [Scalar ν] in
theorem size_eq_of_skeletons {first second : Stage ν} (same : first.skeletons = second.skeletons) :
    first.size = second.size := by
  rw [← length_skeletons, same, length_skeletons]

/-- Landing is writing, but for the timeline keeping that it was landed on. -/
theorem timeline_land {stage : Stage ν} {id : Nat} (opened : id < stage.size)
    (styles : Styles ν) :
    (stage.land id styles).timeline id =
      { (stage.write id styles none).timeline id with landed := true } := by
  have wide : id < (stage.write id styles none).size :=
    Nat.lt_of_lt_of_eq opened (size_eq_of_skeletons (skeletons_write stage id styles none)).symm
  rw [land, timeline_modify wide, if_pos rfl]

/-- The time of a timeline's cursor shows in its skeleton. -/
theorem now_eq_of_skeletons {first second : Stage ν} (same : first.skeletons = second.skeletons)
    (id : Nat) : first.now id = second.now id :=
  congrArg (fun skeleton => skeleton.start + skeleton.cursor) (skeleton_eq_of_skeletons same id)

/-- Where a timeline records a stamped value, and the value becomes the shared one, an entry is
made for the property that is recorded and for no other one. -/
theorem holding_record {stage : Stage ν} {id : Nat} (opened : id < stage.size) {name : String}
    {stamped : Stamped ν} (change : Timeline ν → Timeline ν)
    (recorded : (change (stage.timeline id)).summary =
      (stage.timeline id).summary.insert name stamped) (carried : Bool) (property : String) :
    holding { stage.modify id change with shared := stage.shared.insert name stamped.value }
        property =
      if name = property then (stage.holding property).enter ⟨id, stamped, carried⟩
      else stage.holding property := by
  have changed : ∀ other, ((stage.modify id change).timeline other).summary.get? property =
      if other = id then (if name = property then some stamped
        else (stage.timeline id).summary.get? property)
      else (stage.timeline other).summary.get? property := by
    intro other
    rw [timeline_modify opened]
    split
    · rw [recorded, OrderedMap.get?_insert]
    · rfl
  by_cases here : name = property
  · simp only [holding, Holding.enter, OrderedMap.get?_insert, here, if_true, Holding.mk.injEq,
      true_and]
    funext other
    refine (changed other).trans ?_
    rw [if_pos here]
  · simp only [holding, OrderedMap.get?_insert, here, if_false, Holding.mk.injEq, true_and]
    funext other
    refine (changed other).trans ?_
    rw [if_neg here]
    split
    · next same => rw [same]
    · rfl

theorem holding_writeEntry {stage : Stage ν} {id : Nat} (opened : id < stage.size)
    {property : String} (free : property ≠ offsetKey) (entry : String × Value ν) :
    (stage.writeEntry id entry).holding property =
      if entry.1 = property then
        (stage.holding property).enter ⟨id, ⟨stage.now id, entry.2⟩, false⟩
      else stage.holding property := by
  unfold writeEntry
  split
  · next reserved =>
    have other : entry.1 ≠ property := fun same => free (same ▸ reserved)
    rw [if_neg other]
  · have recorded := (stage.timeline id).summary_write entry.1 entry.2 (stage.shared.get? entry.1)
    exact holding_record opened
      (fun timeline => timeline.write entry.1 entry.2 (stage.shared.get? entry.1)) recorded false
      property

/-- Writing styles enters the value of a property, at the time of the cursor. -/
theorem holding_write {stage : Stage ν} {id : Nat} (opened : id < stage.size) {property : String}
    (free : property ≠ offsetKey) (styles : Styles ν) (easing : Option String) :
    (stage.write id styles easing).holding property =
      match styles.get? property with
      | some value => (stage.holding property).enter ⟨id, ⟨stage.now id, value⟩, false⟩
      | none => stage.holding property := by
  have eased : (stage.easeSegment id easing).skeletons = stage.skeletons :=
    stage.skeletons_easeSegment id easing
  have entries := OrderedMap.foldl_distinct
    (fun (written : Stage ν) entry => written.writeEntry id entry)
    (fun written => written.holding property)
    (fun holding value => holding.enter ⟨id, ⟨stage.now id, value⟩, false⟩)
    (fun written => written.skeletons = stage.skeletons) property
    (fun written value same => by
      rw [holding_writeEntry (size_eq_of_skeletons same ▸ opened) free, if_pos rfl,
        now_eq_of_skeletons same])
    (fun written entry same other => by
      rw [holding_writeEntry (size_eq_of_skeletons same ▸ opened) free, if_neg other])
    (fun written entry same => (written.skeletons_writeEntry id entry).trans same)
    styles.entries styles.distinct (stage.easeSegment id easing) eased
  rw [write, holding_modify _ id Timeline.carryWritten fun _ => rfl]
  refine entries.trans ?_
  have looked : OrderedMap.lookupEntry property styles.entries = styles.get? property := rfl
  rw [holding_easeSegment, looked]
  cases styles.get? property <;> rfl

end Stage

/-! ## Folding one timeline into another -/

/-- A stamped value is later than the one that stands, or nothing stands. -/
def Stamped.supersedes [Scalar ν] (incoming : Stamped ν) (standing : Option (Stamped ν)) : Bool :=
  match standing with
  | some existing => existing.time < incoming.time
  | none => true

/-- The entry by which the summary of one timeline is folded into another: the value of the source
is carried over if it is later. -/
def Holding.carry [Scalar ν] (holding : Holding ν) (target source : Nat) :
    List (LedgerEntry ν) :=
  match holding.summary source with
  | none => []
  | some stamped =>
    if stamped.supersedes (holding.summary target) then [⟨target, stamped, true⟩] else []

theorem Holding.carried_of_mem_carry [Scalar ν] {holding : Holding ν} {target source : Nat} :
    ∀ entry ∈ holding.carry target source, entry.carried = true := by
  intro entry member
  unfold carry at member
  split at member
  · exact absurd member List.not_mem_nil
  · split at member
    · rw [List.mem_singleton.1 member]
    · exact absurd member List.not_mem_nil

namespace Stage

variable [Scalar ν]

theorem holding_adoptEntry {stage : Stage ν} {id : Nat} (opened : id < stage.size)
    (property : String) (entry : String × Stamped ν) :
    (stage.adoptEntry id entry).holding property =
      if entry.1 = property then (stage.holding property).enter ⟨id, entry.2, true⟩
      else stage.holding property :=
  holding_record opened (fun timeline => timeline.adopt entry.1 entry.2) rfl true property

/-- Folding one timeline into another enters the carried value. -/
theorem holding_absorb {stage : Stage ν} {target : Nat} (opened : target < stage.size)
    (source : Nat) (property : String) :
    (stage.absorb target source).holding property =
      (stage.holding property).post ((stage.holding property).carry target source) := by
  have distinct : ((laterEntries (stage.timeline target).summary
      (stage.timeline source).summary).map Prod.fst).Nodup :=
    (stage.timeline source).summary.distinct.sublist (List.filter_sublist.map Prod.fst)
  have entries := OrderedMap.foldl_distinct
    (fun (merged : Stage ν) entry => merged.adoptEntry target entry)
    (fun merged => merged.holding property)
    (fun holding stamped => holding.enter ⟨target, stamped, true⟩)
    (fun merged => target < merged.size) property
    (fun merged stamped opened => by rw [holding_adoptEntry opened, if_pos rfl])
    (fun merged entry opened other => by rw [holding_adoptEntry opened, if_neg other])
    (fun merged entry opened =>
      size_eq_of_skeletons (merged.skeletons_adoptEntry target entry) ▸ opened)
    (laterEntries (stage.timeline target).summary (stage.timeline source).summary) distinct stage
    opened
  refine entries.trans ?_
  rw [laterEntries, OrderedMap.lookupEntry_filter _ _ _ (stage.timeline source).summary.distinct]
  have offered : OrderedMap.lookupEntry property (stage.timeline source).summary.entries =
      (stage.holding property).summary source := rfl
  have standing : (stage.timeline target).summary.get? property =
      (stage.holding property).summary target := rfl
  rw [offered, Holding.carry]
  cases (stage.holding property).summary source with
  | none => rfl
  | some stamped =>
    simp only [Option.filter, standing, Stamped.supersedes]
    cases (stage.holding property).summary target with
    | none => rfl
    | some existing =>
      by_cases later : existing.time < stamped.time
      · simp only [later, decide_true, if_true]
        rfl
      · simp only [later, decide_false, Bool.false_eq_true, if_false]
        rfl

end Stage

end Storyboard
