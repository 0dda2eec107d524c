import Storyboard.Proofs.OrderedMap.Lookup

/-!
# Changing the values of a map

A change of every value that may look at the name leaves the names and their order
(`OrderedMap.mapValues`). It can be made before maps are laid over one another or afterwards
(`OrderedMap.merge_mapValues`).
-/

set_option autoImplicit false

namespace Storyboard

namespace OrderedMap

variable {α β : Type}

/-- The map with every value changed. -/
def mapValues (change : String → α → β) (map : OrderedMap α) : OrderedMap β :=
  ⟨map.entries.map fun entry => (entry.1, change entry.1 entry.2), by
    rw [List.map_map]
    exact map.distinct⟩

theorem lookupEntry_map (change : String → α → β) (name : String) (entries : List (String × α)) :
    lookupEntry name (entries.map fun entry => (entry.1, change entry.1 entry.2)) =
      (lookupEntry name entries).map (change name) := by
  induction entries with
  | nil => rfl
  | cons entry rest ih =>
    obtain ⟨key, value⟩ := entry
    by_cases here : key = name
    · subst here
      simp [lookupEntry]
    · simp only [List.map_cons, lookupEntry, here, if_false, ih]

theorem get?_mapValues (change : String → α → β) (map : OrderedMap α) (name : String) :
    (map.mapValues change).get? name = (map.get? name).map (change name) :=
  lookupEntry_map change name map.entries

theorem map_insertEntry (change : String → α → β) (name : String) (value : α)
    (entries : List (String × α)) :
    (insertEntry name value entries).map (fun entry => (entry.1, change entry.1 entry.2)) =
      insertEntry name (change name value)
        (entries.map fun entry => (entry.1, change entry.1 entry.2)) := by
  induction entries with
  | nil => rfl
  | cons entry rest ih =>
    obtain ⟨key, old⟩ := entry
    by_cases here : key = name
    · subst here
      simp [insertEntry]
    · simp only [insertEntry, here, if_false, List.map_cons, ih]

theorem insert_mapValues (change : String → α → β) (map : OrderedMap α) (name : String)
    (value : α) :
    (map.insert name value).mapValues change =
      (map.mapValues change).insert name (change name value) :=
  eq_of_entries (map_insertEntry change name value map.entries)

theorem overlay_mapValues (change : String → α → β) (base top : OrderedMap α) :
    (base.overlay top).mapValues change =
      (base.mapValues change).overlay (top.mapValues change) := by
  unfold overlay insertAll
  rw [mapValues.eq_def change top, List.foldl_map]
  generalize top.entries = entries
  induction entries generalizing base with
  | nil => rfl
  | cons entry rest ih => rw [List.foldl_cons, List.foldl_cons, ih, insert_mapValues]

/-- Maps can be changed before they are laid over one another or afterwards. -/
theorem merge_mapValues (change : String → α → β) (maps : List (OrderedMap α)) :
    merge (maps.map (mapValues change)) = (merge maps).mapValues change := by
  have folded : ∀ base : OrderedMap α,
      (maps.map (mapValues change)).foldl overlay (base.mapValues change) =
        (maps.foldl overlay base).mapValues change := by
    induction maps with
    | nil => exact fun _ => rfl
    | cons map rest ih =>
      intro base
      rw [List.map_cons, List.foldl_cons, List.foldl_cons, ← overlay_mapValues, ih]
  exact folded empty

/-! ## Where entries come from -/

theorem mem_insertEntry {entry : String × α} {name : String} {value : α} :
    ∀ {entries : List (String × α)}, entry ∈ insertEntry name value entries →
      entry = (name, value) ∨ entry ∈ entries
  | [], member => .inl (List.mem_singleton.1 member)
  | (key, old) :: rest, member => by
    rw [insertEntry] at member
    split at member
    · next same =>
      rcases List.mem_cons.1 member with first | later
      · exact .inl (same ▸ first)
      · exact .inr (List.mem_cons_of_mem _ later)
    · rcases List.mem_cons.1 member with first | later
      · exact .inr (first ▸ List.mem_cons_self)
      · exact (mem_insertEntry later).imp id (List.mem_cons_of_mem _)

theorem mem_overlay {entry : String × α} {base top : OrderedMap α}
    (member : entry ∈ (base.overlay top).entries) : entry ∈ top.entries ∨ entry ∈ base.entries := by
  refine List.foldlRecOn top.entries _
    (motive := fun written : OrderedMap α =>
      entry ∈ written.entries → entry ∈ top.entries ∨ entry ∈ base.entries)
    .inr ?_ member
  intro written known other otherMember inserted
  rcases mem_insertEntry inserted with same | before
  · exact .inl (same ▸ otherMember)
  · exact known before

/-- An entry of an overlay of several maps is an entry of one of them. -/
theorem mem_merge {entry : String × α} {maps : List (OrderedMap α)}
    (member : entry ∈ (merge maps).entries) : ∃ map ∈ maps, entry ∈ map.entries := by
  refine List.foldlRecOn maps _
    (motive := fun merged : OrderedMap α =>
      entry ∈ merged.entries → ∃ map ∈ maps, entry ∈ map.entries)
    (fun none => absurd none List.not_mem_nil) ?_ member
  intro merged known map mapMember overlaid
  rcases mem_overlay overlaid with top | below
  · exact ⟨map, mapMember, top⟩
  · exact known below

end OrderedMap

end Storyboard
