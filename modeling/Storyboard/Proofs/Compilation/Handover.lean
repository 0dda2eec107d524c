import Mathlib.Data.List.Induction
import Storyboard.Proofs.Compilation.Ledger
import Storyboard.Proofs.Number.Lawful

/-!
# What a group hands over

Behind a group the walk goes on with a blank timeline, which knows of a property only what all
timelines share. That value was overwritten in the order of the visit by every write of every
branch, and then once more by each value that was carried back when the branches were folded into
the timeline on which the group was entered. `BranchRun.handover` says which entry comes last:
the last one carried back, else the last one of the branches.

Only what a branch wrote on the timeline that it *ends* on can be carried back
(`BranchRun.handedOver`), and only if it is later than what was carried before it, or than the
starting styles. So the value need not be the one with the latest time
(`BranchRun.latestWrite`).
-/

set_option autoImplicit false

namespace Storyboard

variable {ν : Type} [Scalar ν]

/-- A timeline that has not been opened yet has no summary. -/
theorem Stage.summary_holding_of_size_le {stage : Stage ν} {id : Nat} (beyond : stage.size ≤ id)
    (property : String) : (stage.holding property).summary id = none := by
  have absent : stage.timelines[id]? = none := List.getElem?_eq_none beyond
  simp only [holding, timeline, get?, absent]
  rfl

/-! ## Carrying back -/

/-- The offers that are taken over, one after the other: each is later than the one taken before
it, and the first is later than what stood in the beginning. -/
def adoptions : Option (Stamped ν) → List (Option (Stamped ν)) → List (Stamped ν)
  | _, [] => []
  | standing, none :: rest => adoptions standing rest
  | standing, some offer :: rest =>
    if offer.supersedes standing then offer :: adoptions (some offer) rest
    else adoptions standing rest

/-- Folding several timelines into another one carries the adopted values. -/
theorem Holding.carryAll_eq_adoptions {target : Nat} :
    ∀ {sources : List Nat}, (∀ source ∈ sources, source ≠ target) → ∀ holding : Holding ν,
      holding.carryAll target sources =
        (adoptions (holding.summary target) (sources.map holding.summary)).map
          fun stamped => ⟨target, stamped, true⟩
  | [], _, _ => rfl
  | source :: rest, apart, holding => by
    obtain ⟨_, others⟩ := List.forall_mem_cons.1 apart
    rw [carryAll, List.map_cons]
    unfold carry
    cases holding.summary source with
    | none => exact carryAll_eq_adoptions others holding
    | some offer =>
      simp only [adoptions]
      split
      · have entered := carryAll_eq_adoptions others (holding.post [⟨target, offer, true⟩])
        have same : rest.map (holding.post [⟨target, offer, true⟩]).summary =
            rest.map holding.summary := by
          refine List.map_congr_left fun other member => ?_
          exact if_neg (others other member)
        have standing : (holding.post [⟨target, offer, true⟩]).summary target = some offer :=
          if_pos rfl
        rw [entered, same, standing]
        rfl
      · exact carryAll_eq_adoptions others holding

namespace BranchRun

/-- What a branch hands over: the last entry on the timeline that it ends on. -/
def handedOver (run : BranchRun ν) : Option (Stamped ν) :=
  (run.ledger.filter fun entry => entry.timeline == run.last).getLast?.map LedgerEntry.stamped

/-- The entry that decides the shared value behind a group: the last one that is carried back to
the timeline on which the group was entered, else the last one of the branches. -/
def handover (own : Option (Stamped ν)) (runs : List (BranchRun ν)) : Option (Stamped ν) :=
  (adoptions own (runs.map handedOver)).getLast?.or
    ((runs.flatMap ledger).getLast?.map LedgerEntry.stamped)

/-- The branch ran on timelines from a number on. -/
def Above (bound : Nat) (run : BranchRun ν) : Prop :=
  bound ≤ run.last ∧ ∀ entry ∈ run.ledger, bound ≤ entry.timeline

end BranchRun

namespace Traversal

/-- The branches of a group run on timelines of their own, and behind them each of these
timelines holds what its branch hands over. -/
theorem handedOver_branchRuns {property : String} (free : property ≠ offsetKey)
    (settings : Settings ν) (scope : Params ν) {entry : Traversal ν} :
    ∀ (branches : List (Tree ν)) {walk : Traversal ν}, entry.current < walk.stage.size →
      ∀ run ∈ branchRuns property settings scope entry branches walk,
        run.Above walk.stage.size ∧
          ((throughBranches settings scope entry branches walk).stage.holding property).summary
            run.last = run.handedOver
  | [], _, _, _, member => absurd member List.not_mem_nil
  | branch :: rest, walk, placed, run, member => by
    have forked := course_enterBranch property entry walk
    have visited := forked.silent_trans (course_visit free settings branch scope forked.placed)
    have further := Nat.lt_of_lt_of_le placed visited.grows
    have others := handedOver_branchRuns free settings scope rest further
    rcases List.mem_cons.1 member with rfl | later
    · refine ⟨⟨visited.opened, visited.inside_opened⟩, ?_⟩
      -- The branches behind this one ran on later timelines and left its own as it was.
      have untouched : ∀ made ∈ (branchRuns property settings scope entry rest
          (visit settings scope branch (entry.enterBranch walk))).flatMap BranchRun.ledger,
          made.timeline ≠ (visit settings scope branch (entry.enterBranch walk)).current := by
        intro made inside same
        obtain ⟨other, among, listed⟩ := List.mem_flatMap.1 inside
        have above := (others other among).1.2 made listed
        have below := visited.placed
        omega
      have through := course_throughBranches free settings rest scope further
      simp only [throughBranches]
      rw [through.holding, Holding.summary_post_of_absent _ untouched, visited.holding,
        Holding.summary_post, Stage.summary_holding_of_size_le visited.opened, Option.or_none]
      rfl
    · obtain ⟨⟨ends, made⟩, held⟩ := others run later
      exact ⟨⟨Nat.le_trans visited.grows ends,
        fun entry inside => Nat.le_trans visited.grows (made entry inside)⟩, held⟩

/-- **The shared value behind a group** is that of the entry handed over. -/
theorem shared_visit_group {property : String} (free : property ≠ offsetKey)
    (settings : Settings ν) (scope : Params ν) (branches : List (Tree ν)) {walk : Traversal ν}
    (placed : walk.Placed) :
    (visit settings scope (.group branches) walk).stage.shared.get? property =
      ((BranchRun.handover ((walk.stage.holding property).summary walk.current)
        (branchRuns property settings scope walk branches walk)).map Stamped.value).or
          (walk.stage.shared.get? property) := by
  have visited := (course_visit free settings (.group branches) scope placed).holding
  have through := course_throughBranches free settings branches scope placed
  have held := handedOver_branchRuns free settings scope branches placed
  rw [show (visit settings scope (.group branches) walk).stage.shared.get? property =
    ((visit settings scope (.group branches) walk).stage.holding property).shared from rfl, visited]
  simp only [ledger]
  -- No branch ends on the timeline on which the group was entered, nor writes on it.
  have apart : ∀ source ∈ (branchRuns property settings scope walk branches walk).map
      BranchRun.last, source ≠ walk.current := by
    intro source member same
    obtain ⟨run, among, rfl⟩ := List.mem_map.1 member
    exact absurd (same ▸ placed) (Nat.not_lt_of_le (held run among).1.1)
  have untouched : ∀ made ∈ (branchRuns property settings scope walk branches walk).flatMap
      BranchRun.ledger, made.timeline ≠ walk.current := by
    intro made member same
    obtain ⟨run, among, inside⟩ := List.mem_flatMap.1 member
    exact absurd (same ▸ placed) (Nat.not_lt_of_le ((held run among).1.2 made inside))
  have offers : ((branchRuns property settings scope walk branches walk).map BranchRun.last).map
      ((walk.stage.holding property).post ((branchRuns property settings scope walk branches
        walk).flatMap BranchRun.ledger)).summary =
      (branchRuns property settings scope walk branches walk).map BranchRun.handedOver := by
    rw [← through.holding, List.map_map]
    exact List.map_congr_left fun run among => (held run among).2
  rw [Holding.carryAll_eq_adoptions apart, offers, Holding.summary_post_of_absent _ untouched,
    Holding.shared_post, sharedValue, List.getLast?_append, List.getLast?_map, BranchRun.handover]
  cases (adoptions ((walk.stage.holding property).summary walk.current)
    ((branchRuns property settings scope walk branches walk).map BranchRun.handedOver)).getLast? with
  | some adopted => rfl
  | none =>
    cases ((branchRuns property settings scope walk branches walk).flatMap
      BranchRun.ledger).getLast? <;> rfl

end Traversal

/-! ## The latest write -/

/-- The later of a standing entry and an offer; the standing one on equal times. -/
def overtake (standing : Option (Stamped ν)) : Option (Stamped ν) → Option (Stamped ν)
  | none => standing
  | some offer => if offer.supersedes standing then some offer else standing

theorem overtake_of_lt {standing offer : Stamped ν} (later : standing.time < offer.time) :
    overtake (some standing) (some offer) = some offer :=
  if_pos (decide_eq_true later)

theorem overtake_of_not_lt {standing offer : Stamped ν} (earlier : ¬standing.time < offer.time) :
    overtake (some standing) (some offer) = some standing :=
  if_neg fun later => earlier (of_decide_eq_true later)

/-- The later of a standing entry and a new one; the new one on equal times. -/
def giveWay (standing : Option (Stamped ν)) (incoming : Stamped ν) : Option (Stamped ν) :=
  match standing with
  | some existing => if incoming.time < existing.time then some existing else some incoming
  | none => some incoming

namespace BranchRun

/-- What a branch writes, in order. -/
def writes (run : BranchRun ν) : List (Stamped ν) :=
  (run.ledger.filter fun entry => !entry.carried).map LedgerEntry.stamped

/-- The write of a branch with the greatest time; of equal times the later write. -/
def latest (run : BranchRun ν) : Option (Stamped ν) :=
  run.writes.foldl giveWay none

/-- The write of several branches with the greatest time; of equal times that of the branch
visited first. -/
def latestWrite (runs : List (BranchRun ν)) : Option (Stamped ν) :=
  (runs.map latest).foldl overtake none

end BranchRun

/-- The last offer adopted is what is left standing, unless nothing was adopted. -/
theorem getLast?_adoptions (own : Option (Stamped ν)) (offers : List (Option (Stamped ν))) :
    (adoptions own offers).getLast?.or own = offers.foldl overtake own := by
  induction offers generalizing own with
  | nil => rfl
  | cons offer rest ih =>
    cases offer with
    | none => exact ih own
    | some offer =>
      simp only [adoptions, List.foldl_cons, overtake]
      split
      · rw [← ih, List.getLast?_cons]
        cases (adoptions (some offer) rest).getLast? <;> rfl
      · exact ih own

theorem foldl_giveWay_isSome {writes : List (Stamped ν)} (written : writes ≠ []) :
    (writes.foldl giveWay none).isSome = true := by
  induction writes using List.reverseRecOn with
  | nil => exact absurd rfl written
  | append_singleton writes last _ =>
    rw [List.foldl_append, List.foldl_cons, List.foldl_nil]
    unfold giveWay
    split
    · split <;> rfl
    · rfl

theorem overtake_isSome_of_standing {standing : Option (Stamped ν)}
    (stands : standing.isSome = true) (offer : Option (Stamped ν)) :
    (overtake standing offer).isSome = true := by
  unfold overtake
  split
  · exact stands
  · split
    · rfl
    · exact stands

theorem overtake_isSome_of_offer (standing : Option (Stamped ν)) (offer : Stamped ν) :
    (overtake standing (some offer)).isSome = true := by
  cases standing with
  | none => rfl
  | some existing => exact overtake_isSome_of_standing rfl _

theorem foldl_overtake_isSome {offers : List (Option (Stamped ν))} {standing : Option (Stamped ν)}
    (offered : standing.isSome = true ∨ ∃ offer, some offer ∈ offers) :
    (offers.foldl overtake standing).isSome = true := by
  induction offers generalizing standing with
  | nil =>
    rcases offered with stands | ⟨offer, member⟩
    · exact stands
    · exact absurd member List.not_mem_nil
  | cons offer rest ih =>
    apply ih
    rcases offered with stands | ⟨other, member⟩
    · exact .inl (overtake_isSome_of_standing stands offer)
    · rcases List.mem_cons.1 member with rfl | later
      · exact .inl (overtake_isSome_of_offer standing other)
      · exact .inr ⟨other, later⟩

/-- Where something is written, some write is the latest. -/
theorem BranchRun.latestWrite_isSome {runs : List (BranchRun ν)}
    (written : ∃ run ∈ runs, ∃ entry ∈ run.ledger, entry.carried = false) :
    ∃ latest, BranchRun.latestWrite runs = some latest := by
  obtain ⟨run, member, entry, inside, own⟩ := written
  have nonempty : run.writes ≠ [] := by
    have listed : entry ∈ run.ledger.filter fun entry => !entry.carried :=
      List.mem_filter.2 ⟨inside, by rw [own]; rfl⟩
    exact List.ne_nil_of_mem (List.mem_map_of_mem listed)
  obtain ⟨latest, isLatest⟩ := Option.isSome_iff_exists.1 (foldl_giveWay_isSome nonempty)
  have offered : some latest ∈ runs.map BranchRun.latest :=
    List.mem_map.2 ⟨run, member, isLatest⟩
  exact Option.isSome_iff_exists.1 (foldl_overtake_isSome (.inr ⟨latest, offered⟩))

/-- Where something is entered, something is handed over. -/
theorem BranchRun.handover_isSome (own : Option (Stamped ν)) {runs : List (BranchRun ν)}
    (written : ∃ run ∈ runs, ∃ entry ∈ run.ledger, entry.carried = false) :
    ∃ handed, BranchRun.handover own runs = some handed := by
  obtain ⟨run, member, entry, inside, _⟩ := written
  have nonempty : runs.flatMap BranchRun.ledger ≠ [] :=
    List.ne_nil_of_mem (List.mem_flatMap.2 ⟨run, member, inside⟩)
  unfold handover
  rw [List.getLast?_eq_some_getLast nonempty]
  cases (adoptions own (runs.map handedOver)).getLast? with
  | none => exact ⟨_, rfl⟩
  | some adopted => exact ⟨adopted, rfl⟩

section Lawful

variable [LawfulScalar ν]

/-- What is left standing without an entry in the beginning, beside what is left standing with it:
the same, or one that is not later than the entry, which still stands itself, or one whose time is
no number, which nothing overtakes. -/
inductive Stamped.Shadows (first : Stamped ν) : Option (Stamped ν) → Option (Stamped ν) → Prop where
  | same (standing : Option (Stamped ν)) : Shadows first standing standing
  | stands {plain : Option (Stamped ν)}
      (earlier : ∀ entry, plain = some entry → ¬first.time < entry.time) :
      Shadows first plain (some first)
  | stuck {entry : Stamped ν} (covered : Option (Stamped ν))
      (improper : ¬(entry.time == entry.time) = true) : Shadows first (some entry) covered

namespace Stamped.Shadows

variable {first : Stamped ν} {plain covered : Option (Stamped ν)}

/-- One more offer keeps the relation. -/
theorem offered (shadows : first.Shadows plain covered) (offer : Option (Stamped ν)) :
    first.Shadows (overtake plain offer) (overtake covered offer) := by
  cases offer with
  | none => exact shadows
  | some offer =>
    cases shadows with
    | same => exact .same _
    | stuck covered improper =>
      rw [overtake_of_not_lt fun below => improper (LawfulScalar.proper_of_lt below).1]
      exact .stuck _ improper
    | stands earlier =>
      by_cases taken : first.time < offer.time
      · rw [overtake_of_lt taken]
        cases plain with
        | none => exact .same _
        | some entry =>
          by_cases proper : (entry.time == entry.time) = true
          · have bounded : Scalar.atMost entry.time first.time = true :=
              Scalar.atMost_of_not_lt proper (LawfulScalar.proper_of_lt taken).1
                (earlier entry rfl)
            rw [overtake_of_lt (Scalar.lt_of_atMost_of_lt bounded taken)]
            exact .same _
          · rw [overtake_of_not_lt fun below => proper (LawfulScalar.proper_of_lt below).1]
            exact .stuck _ proper
      · rw [overtake_of_not_lt taken]
        refine .stands fun entry stood => ?_
        simp only [overtake] at stood
        split at stood
        · exact Option.some.inj stood ▸ taken
        · exact earlier entry stood

theorem foldl (offers : List (Option (Stamped ν))) (shadows : first.Shadows plain covered) :
    first.Shadows (offers.foldl overtake plain) (offers.foldl overtake covered) := by
  induction offers generalizing plain covered with
  | nil => exact shadows
  | cons offer rest ih => exact ih (shadows.offered offer)

/-- What is later than the entry in the beginning is left standing beside itself. -/
theorem eq_of_lt {latest : Stamped ν} (shadows : first.Shadows (some latest) covered)
    (later : first.time < latest.time) : covered = some latest := by
  cases shadows with
  | same => rfl
  | stands earlier => exact absurd later (earlier latest rfl)
  | stuck _ improper => exact absurd (LawfulScalar.proper_of_lt later).2 improper

end Stamped.Shadows

/-- An entry that stands in the beginning makes no difference to what is left standing, if that is
later. -/
theorem foldl_overtake_of_supersedes {own : Option (Stamped ν)} {latest : Stamped ν}
    {offers : List (Option (Stamped ν))} (left : offers.foldl overtake none = some latest)
    (later : latest.supersedes own = true) : offers.foldl overtake own = some latest := by
  cases own with
  | none => exact left
  | some first =>
    have beginning : first.Shadows none (some first) := .stands fun entry none => nomatch none
    have shadows := beginning.foldl offers
    rw [left] at shadows
    exact shadows.eq_of_lt (of_decide_eq_true later)

/-- **When the latest write is handed over**: every branch hands over its latest write, and the
latest of all is later than what the timeline on which the group was entered had written. -/
theorem BranchRun.handover_eq_latestWrite {own : Option (Stamped ν)} {runs : List (BranchRun ν)}
    {latest : Stamped ν} (written : BranchRun.latestWrite runs = some latest)
    (delivered : ∀ run ∈ runs, run.handedOver = run.latest)
    (later : latest.supersedes own = true) : BranchRun.handover own runs = some latest := by
  have offers : runs.map BranchRun.handedOver = runs.map BranchRun.latest :=
    List.map_congr_left delivered
  have left := foldl_overtake_of_supersedes written later
  rw [← offers, ← getLast?_adoptions] at left
  unfold handover
  cases adopted : (adoptions own (runs.map handedOver)).getLast? with
  | some last =>
    rw [adopted] at left
    exact left
  | none =>
    rw [adopted, Option.none_or] at left
    rw [left] at later
    exact absurd (of_decide_eq_true later) (LawfulScalar.lt_irrefl latest.time)

end Lawful

end Storyboard
