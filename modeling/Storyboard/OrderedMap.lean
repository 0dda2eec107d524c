/-!
# Ordered maps

A map from names to values that remembers the order in which names first came in. Writing a name
again changes its value and leaves its place. Style declarations, keyframes, parameter scopes and
the tables of a timeline are all such maps, and the order shows in every answer.

A map is its list of entries together with the proof that no name occurs twice. Two views say
what each operation does: `keys`, the names in order, and `get?`, the value of a name.
`overlay` writes the entries of one map over another in order; it is how declarations are merged,
how scopes are layered and how one table is copied into another.
-/

set_option autoImplicit false

namespace Storyboard

/-- A map from names to values in the order of first insertion. -/
structure OrderedMap (α : Type) where
  entries : List (String × α)
  distinct : (entries.map Prod.fst).Nodup
deriving DecidableEq

namespace OrderedMap

variable {α β : Type}

/-- The map without entries. -/
def empty : OrderedMap α :=
  ⟨[], by simp⟩

instance : EmptyCollection (OrderedMap α) := ⟨empty⟩

instance : Inhabited (OrderedMap α) := ⟨empty⟩

/-- The names in order. -/
def keys (map : OrderedMap α) : List String :=
  map.entries.map Prod.fst

/-- The number of entries. -/
def size (map : OrderedMap α) : Nat :=
  map.entries.length

/-- The map has no entries. -/
def isEmpty (map : OrderedMap α) : Bool :=
  map.entries.isEmpty

/-- The value of the first entry with a name. -/
def lookupEntry (name : String) : List (String × α) → Option α
  | [] => none
  | (key, value) :: rest => if key = name then some value else lookupEntry name rest

/-- The value of a name, if the map has it. -/
def get? (map : OrderedMap α) (name : String) : Option α :=
  lookupEntry name map.entries

/-- The map has an entry for a name. -/
def contains (map : OrderedMap α) (name : String) : Bool :=
  (map.get? name).isSome

/-- Writes a value where the name stands, or at the end if it is new. -/
def insertEntry (name : String) (value : α) : List (String × α) → List (String × α)
  | [] => [(name, value)]
  | (key, old) :: rest =>
    if key = name then (key, value) :: rest else (key, old) :: insertEntry name value rest

theorem map_fst_insertEntry (name : String) (value : α) (entries : List (String × α)) :
    (insertEntry name value entries).map Prod.fst =
      if name ∈ entries.map Prod.fst then entries.map Prod.fst
      else entries.map Prod.fst ++ [name] := by
  induction entries with
  | nil => simp [insertEntry]
  | cons entry rest ih =>
    obtain ⟨key, old⟩ := entry
    by_cases same : key = name
    · simp [insertEntry, same]
    · have different : name ≠ key := fun h => same h.symm
      by_cases member : name ∈ rest.map Prod.fst
      · simp only [insertEntry, same, if_false, List.map_cons, ih, member, if_true,
          List.mem_cons, or_true]
      · simp only [insertEntry, same, if_false, List.map_cons, ih, member, List.mem_cons,
          different, or_self, List.cons_append]

theorem distinct_insertEntry {entries : List (String × α)} (name : String) (value : α)
    (distinct : (entries.map Prod.fst).Nodup) :
    ((insertEntry name value entries).map Prod.fst).Nodup := by
  rw [map_fst_insertEntry]
  split
  · exact distinct
  · next absent =>
    rw [List.nodup_append]
    refine ⟨distinct, by simp, ?_⟩
    intro key member other single same
    rw [List.mem_singleton.1 single] at same
    exact absent (same ▸ member)

/-- Writes a value for a name; a new name goes to the end. -/
def insert (map : OrderedMap α) (name : String) (value : α) : OrderedMap α :=
  ⟨insertEntry name value map.entries, distinct_insertEntry name value map.distinct⟩

/-- Removes a name and closes the gap. -/
def erase (map : OrderedMap α) (name : String) : OrderedMap α :=
  ⟨map.entries.filter fun entry => entry.1 != name,
    map.distinct.sublist (List.filter_sublist.map Prod.fst)⟩

/-- Writes entries in order. -/
def insertAll (map : OrderedMap α) (entries : List (String × α)) : OrderedMap α :=
  entries.foldl (fun written entry => written.insert entry.1 entry.2) map

/-- The map of a list of entries: a repeated name keeps its first place and its last value. -/
def ofList (entries : List (String × α)) : OrderedMap α :=
  insertAll empty entries

/-- Writes the entries of `top` over `base`, in order. -/
def overlay (base top : OrderedMap α) : OrderedMap α :=
  base.insertAll top.entries

/-- The overlays of a list of maps, from left to right: later maps win. -/
def merge (maps : List (OrderedMap α)) : OrderedMap α :=
  maps.foldl overlay empty

/-- Writes a value for a name unless the map has one. -/
def insertMissing (map : OrderedMap α) (name : String) (value : α) : OrderedMap α :=
  if map.contains name then map else map.insert name value

/-- Writes those entries of `fill` whose names the map lacks, in order. -/
def fillFrom (map fill : OrderedMap α) : OrderedMap α :=
  fill.entries.foldl (fun filled entry => filled.insertMissing entry.1 entry.2) map

/-- Two maps with equal values for the same names, whatever their order. -/
def agrees [BEq α] (first second : OrderedMap α) : Bool :=
  first.size == second.size &&
    first.entries.all fun entry =>
      match second.get? entry.1 with
      | some value => entry.2 == value
      | none => false

/-! ## What the operations do to the views -/

theorem lookupEntry_insertEntry (name other : String) (value : α)
    (entries : List (String × α)) :
    lookupEntry other (insertEntry name value entries) =
      if name = other then some value else lookupEntry other entries := by
  induction entries with
  | nil => simp [insertEntry, lookupEntry]
  | cons entry rest ih =>
    obtain ⟨key, old⟩ := entry
    by_cases same : key = name
    · subst same
      by_cases here : key = other <;> simp [insertEntry, lookupEntry, here]
    · by_cases here : key = other
      · subst here
        have : ¬name = key := fun h => same h.symm
        simp [insertEntry, lookupEntry, same, this]
      · simp [insertEntry, lookupEntry, same, here, ih]

theorem lookupEntry_isSome_iff (name : String) (entries : List (String × α)) :
    (lookupEntry name entries).isSome ↔ name ∈ entries.map Prod.fst := by
  induction entries with
  | nil => simp [lookupEntry]
  | cons entry rest ih =>
    obtain ⟨key, old⟩ := entry
    by_cases same : key = name
    · simp [lookupEntry, same]
    · have different : name ≠ key := fun h => same h.symm
      simp only [lookupEntry, same, if_false, ih, List.map_cons, List.mem_cons, different,
        false_or]

theorem not_contains_empty (name : String) : ¬(empty : OrderedMap α).contains name = true :=
  Bool.false_ne_true

theorem get?_insert (map : OrderedMap α) (name other : String) (value : α) :
    (map.insert name value).get? other = if name = other then some value else map.get? other :=
  lookupEntry_insertEntry name other value map.entries

theorem keys_insert (map : OrderedMap α) (name : String) (value : α) :
    (map.insert name value).keys = if name ∈ map.keys then map.keys else map.keys ++ [name] :=
  map_fst_insertEntry name value map.entries

theorem contains_iff_mem_keys (map : OrderedMap α) (name : String) :
    map.contains name = true ↔ name ∈ map.keys :=
  lookupEntry_isSome_iff name map.entries

theorem nodup_keys (map : OrderedMap α) : map.keys.Nodup :=
  map.distinct

end OrderedMap

end Storyboard
