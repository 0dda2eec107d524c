import Storyboard.OrderedMap

/-!
# Looking up in folded maps

Every operation that writes the entries of a map one after the other is a fold over entries with
distinct names. Such a fold changes a view that depends on a single name once at most, by the value
of that name (`OrderedMap.foldl_distinct`). So a look-up in an overlay finds the value on top, and
what was filled in shows only where nothing stood before.
-/

set_option autoImplicit false

namespace Storyboard

namespace OrderedMap

variable {α β γ : Type}

/-- A fold over entries with distinct names changes a view once at most: by the value of the one
name that the view depends on. -/
theorem foldl_distinct (step : β → String × α → β) (view : β → γ) (enter : γ → α → γ)
    (kept : β → Prop) (name : String)
    (hit : ∀ state value, kept state → view (step state (name, value)) = enter (view state) value)
    (miss : ∀ state entry, kept state → entry.1 ≠ name → view (step state entry) = view state)
    (keeps : ∀ state entry, kept state → kept (step state entry)) :
    ∀ (entries : List (String × α)), (entries.map Prod.fst).Nodup → ∀ state, kept state →
      view (entries.foldl step state) =
        match lookupEntry name entries with
        | some value => enter (view state) value
        | none => view state
  | [], _, _, _ => rfl
  | (key, value) :: rest, distinct, state, before => by
    obtain ⟨absent, distinct⟩ := List.nodup_cons.1 distinct
    rw [List.foldl_cons, foldl_distinct step view enter kept name hit miss keeps rest distinct _ (keeps _ _ before)]
    by_cases here : key = name
    · subst here
      have gone : lookupEntry key rest = none := by
        rw [← Option.not_isSome_iff_eq_none, lookupEntry_isSome_iff]
        exact absent
      simp only [gone, lookupEntry, if_true]
      exact hit state value before
    · simp only [lookupEntry, here, if_false]
      rw [miss state (key, value) before here]

theorem lookupEntry_filter (keep : String × α → Bool) (name : String) :
    ∀ (entries : List (String × α)), (entries.map Prod.fst).Nodup →
      lookupEntry name (entries.filter keep) =
        (lookupEntry name entries).filter fun value => keep (name, value)
  | [], _ => rfl
  | (key, value) :: rest, distinct => by
    obtain ⟨absent, distinct⟩ := List.nodup_cons.1 distinct
    have others := lookupEntry_filter keep name rest distinct
    by_cases here : key = name
    · subst here
      have gone : lookupEntry key rest = none := by
        rw [← Option.not_isSome_iff_eq_none, lookupEntry_isSome_iff]
        exact absent
      by_cases stays : keep (key, value) = true
      · simp [stays, lookupEntry, Option.filter]
      · rw [gone] at others
        simp [stays, lookupEntry, Option.filter, others]
    · by_cases stays : keep (key, value) = true
      · simp [stays, lookupEntry, here, others]
      · simp [stays, lookupEntry, here, others]

theorem lookupEntry_of_mem {entry : String × α} :
    ∀ {entries : List (String × α)}, (entries.map Prod.fst).Nodup → entry ∈ entries →
      lookupEntry entry.1 entries = some entry.2
  | (key, value) :: rest, distinct, member => by
    obtain ⟨absent, distinct⟩ := List.nodup_cons.1 distinct
    rcases List.mem_cons.1 member with rfl | later
    · exact if_pos rfl
    · have apart : key ≠ entry.1 := by
        rintro rfl
        exact absent (List.mem_map.2 ⟨entry, later, rfl⟩)
      exact (if_neg apart).trans (lookupEntry_of_mem distinct later)

/-- The value of an entry is found under its name. -/
theorem get?_of_mem {map : OrderedMap α} {entry : String × α} (member : entry ∈ map.entries) :
    map.get? entry.1 = some entry.2 :=
  lookupEntry_of_mem map.distinct member

theorem mem_of_lookupEntry {name : String} {value : α} :
    ∀ {entries : List (String × α)}, lookupEntry name entries = some value →
      (name, value) ∈ entries
  | (key, first) :: rest, found => by
    by_cases here : key = name
    · rw [lookupEntry, if_pos here] at found
      rw [← here, ← Option.some.inj found]
      exact List.mem_cons_self
    · rw [lookupEntry, if_neg here] at found
      exact List.mem_cons_of_mem _ (mem_of_lookupEntry found)

theorem mem_of_get? {map : OrderedMap α} {name : String} {value : α}
    (found : map.get? name = some value) : (name, value) ∈ map.entries :=
  mem_of_lookupEntry found

theorem get?_of_isEmpty {map : OrderedMap α} (empty : map.isEmpty = true) (name : String) :
    map.get? name = none := by
  rw [get?, List.isEmpty_iff.1 empty, lookupEntry]

/-- In an overlay the value on top is found first. -/
theorem get?_overlay (base top : OrderedMap α) (name : String) :
    (base.overlay top).get? name = (top.get? name).or (base.get? name) := by
  have written := foldl_distinct (fun (map : OrderedMap α) entry => map.insert entry.1 entry.2)
    (fun map => map.get? name) (fun _ value => some value) (fun _ => True) name
    (fun map value _ => by rw [get?_insert, if_pos rfl])
    (fun map entry _ other => by rw [get?_insert, if_neg other])
    (fun _ _ _ => trivial) top.entries top.distinct base trivial
  refine Eq.trans written ?_
  have looked : lookupEntry name top.entries = top.get? name := rfl
  rw [looked]
  cases top.get? name <;> rfl

theorem get?_insertMissing (map : OrderedMap α) (name other : String) (value : α) :
    (map.insertMissing name value).get? other =
      if name = other then (map.get? other).or (some value) else map.get? other := by
  unfold insertMissing contains
  by_cases same : name = other
  · subst same
    cases found : map.get? name with
    | none => simp [get?_insert]
    | some standing => simp [found]
  · simp only [same, if_false]
    split
    · rfl
    · rw [get?_insert, if_neg same]

/-- What is filled in is found where nothing stood before. -/
theorem get?_fillFrom (map fill : OrderedMap α) (name : String) :
    (map.fillFrom fill).get? name = (map.get? name).or (fill.get? name) := by
  have filled := foldl_distinct
    (fun (map : OrderedMap α) entry => map.insertMissing entry.1 entry.2)
    (fun map => map.get? name) (fun standing value => standing.or (some value)) (fun _ => True) name
    (fun map value _ => by rw [get?_insertMissing, if_pos rfl])
    (fun map entry _ other => by rw [get?_insertMissing, if_neg other])
    (fun _ _ _ => trivial) fill.entries fill.distinct map trivial
  refine Eq.trans filled ?_
  have looked : lookupEntry name fill.entries = fill.get? name := rfl
  rw [looked]
  cases fill.get? name with
  | none => exact (Option.or_none).symm
  | some value => rfl

/-! ## Maps folded up again -/

/-- A new name goes to the end. -/
theorem insertEntry_of_absent (name : String) (value : α) :
    ∀ entries : List (String × α), name ∉ entries.map Prod.fst →
      insertEntry name value entries = entries ++ [(name, value)]
  | [], _ => rfl
  | (key, old) :: rest, absent => by
    have apart : ¬key = name := fun same => absent (same ▸ List.mem_cons_self)
    have others := insertEntry_of_absent name value rest fun member =>
      absent (List.mem_cons_of_mem _ member)
    rw [insertEntry, if_neg apart, others, List.cons_append]

/-- Entries with new and distinct names are written behind those of the map, as they stand. -/
theorem entries_insertAll : ∀ (entries : List (String × α)) (map : OrderedMap α),
    (map.keys ++ entries.map Prod.fst).Nodup →
      (map.insertAll entries).entries = map.entries ++ entries
  | [], map, _ => (List.append_nil map.entries).symm
  | (name, value) :: rest, map, distinct => by
    have absent : name ∉ map.keys := fun member =>
      (List.nodup_append.1 distinct).2.2 name member name List.mem_cons_self rfl
    have inserted : (map.insert name value).entries = map.entries ++ [(name, value)] :=
      insertEntry_of_absent name value map.entries absent
    have further : ((map.insert name value).keys ++ rest.map Prod.fst).Nodup := by
      rw [keys, inserted, List.map_append, List.append_assoc]
      exact distinct
    have others := entries_insertAll rest (map.insert name value) further
    rw [inserted, List.append_assoc] at others
    exact others

theorem eq_of_entries {first second : OrderedMap α} (same : first.entries = second.entries) :
    first = second := by
  cases first
  cases second
  cases same
  rfl

/-- A map is the map of its entries. -/
theorem ofList_entries (map : OrderedMap α) : ofList map.entries = map :=
  eq_of_entries (entries_insertAll map.entries empty map.distinct)

/-- Nothing is filled in where every name has a value. -/
theorem fillFrom_of_contained {map fill : OrderedMap α}
    (contained : ∀ name, fill.contains name = true → map.contains name = true) :
    map.fillFrom fill = map := by
  refine List.foldlRecOn (motive := fun filled => filled = map) _ _ rfl ?_
  intro filled same entry member
  have there : fill.contains entry.1 = true :=
    (fill.contains_iff_mem_keys entry.1).2 (List.mem_map_of_mem member)
  rw [same, insertMissing, if_pos (contained entry.1 there)]

end OrderedMap

end Storyboard
