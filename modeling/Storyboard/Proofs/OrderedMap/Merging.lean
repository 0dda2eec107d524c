import Mathlib.Data.List.Basic
import Mathlib.Data.List.Induction
import Storyboard.Proofs.OrderedMap.Lookup

/-!
# Merging ordered maps

An ordered map is known by two things: the order of its names, and the value of each name
(`OrderedMap.eq_of_keys`). Laying one map over another changes them in different ways. A name keeps
the place where it came in first, so the names of the upper map that are new go to the end
(`OrderedMap.keys_overlay`); a value is the one written last, so the upper map is asked first
(`OrderedMap.get?_overlay`).

From this the laws of merging follow. An entry can be written on top of two maps before or after
the upper one is laid over the lower (`OrderedMap.overlay_insert`), hence overlays associate, and
hence the merge of a list of maps can be made in two halves. All laws are equalities of maps with
their order (`OrderedMap.merge_laws`).
-/

set_option autoImplicit false

namespace Storyboard

namespace OrderedMap

variable {α : Type}

/-! ## Maps with the same names and values -/

/-- The entries of a map, read off its two views. -/
theorem map_some_entries (map : OrderedMap α) :
    map.entries.map some = map.keys.map fun name => (map.get? name).map (Prod.mk name) := by
  rw [keys, List.map_map]
  apply List.map_congr_left
  intro entry member
  rw [Function.comp_apply, get?_of_mem member]
  rfl

/-- Maps with the same names in the same order and the same values are equal. -/
theorem eq_of_keys {first second : OrderedMap α} (names : first.keys = second.keys)
    (values : ∀ name, first.get? name = second.get? name) : first = second := by
  apply eq_of_entries
  apply List.map_injective_iff.2 fun _ _ => Option.some.inj
  rw [map_some_entries, map_some_entries, names]
  simp only [values]

/-! ## The names of an overlay -/

theorem keys_insertAll : ∀ (entries : List (String × α)) (map : OrderedMap α),
    (entries.map Prod.fst).Nodup →
      (map.insertAll entries).keys =
        map.keys ++ (entries.map Prod.fst).filter fun name => name ∉ map.keys
  | [], map, _ => (List.append_nil map.keys).symm
  | (name, value) :: rest, map, distinct => by
    obtain ⟨absent, distinct⟩ := List.nodup_cons.1 distinct
    have others := keys_insertAll rest (map.insert name value) distinct
    have written : map.insertAll ((name, value) :: rest) =
        (map.insert name value).insertAll rest := rfl
    rw [written, others, keys_insert, List.map_cons]
    by_cases stands : name ∈ map.keys
    · simp [stands]
    · -- The new name is none of the later ones, so it keeps none of them out.
      have apart : ∀ later ∈ rest.map Prod.fst,
          (decide (later ∉ map.keys ++ [name])) = decide (later ∉ map.keys) := by
        intro later member
        have different : later ≠ name := fun same => absent (same ▸ member)
        simp [different]
      rw [if_neg stands, List.filter_congr apart, List.append_assoc]
      simp [stands]

/-- The names of the lower map keep their places, and those that are new follow. -/
theorem keys_overlay (base top : OrderedMap α) :
    (base.overlay top).keys = base.keys ++ top.keys.filter fun name => name ∉ base.keys :=
  keys_insertAll top.entries base top.distinct

theorem mem_keys_overlay {base top : OrderedMap α} {name : String} :
    name ∈ (base.overlay top).keys ↔ name ∈ base.keys ∨ name ∈ top.keys := by
  rw [keys_overlay, List.mem_append, List.mem_filter, decide_eq_true_eq]
  by_cases stands : name ∈ base.keys <;> simp [stands]

/-! ## The laws of an overlay -/

/-- An entry that is written into the upper map can be written into the overlay instead. -/
theorem overlay_insert (base top : OrderedMap α) (name : String) (value : α) :
    base.overlay (top.insert name value) = (base.overlay top).insert name value := by
  apply eq_of_keys
  · rw [keys_overlay, keys_insert, keys_insert]
    by_cases above : name ∈ top.keys
    · rw [if_pos above, if_pos (mem_keys_overlay.2 (.inr above)), keys_overlay]
    · by_cases below : name ∈ base.keys
      · rw [if_neg above, if_pos (mem_keys_overlay.2 (.inl below)), keys_overlay]
        simp [below]
      · rw [if_neg above, if_neg (mt mem_keys_overlay.1 (not_or.2 ⟨below, above⟩)), keys_overlay]
        simp [below]
  · intro other
    rw [get?_overlay, get?_insert, get?_insert, get?_overlay]
    split <;> rfl

theorem overlay_insertAll (base top : OrderedMap α) (entries : List (String × α)) :
    base.overlay (top.insertAll entries) = (base.overlay top).insertAll entries := by
  induction entries generalizing top with
  | nil => rfl
  | cons entry rest ih =>
    have written := ih (top.insert entry.1 entry.2)
    rw [overlay_insert] at written
    exact written

theorem overlay_assoc (first second third : OrderedMap α) :
    (first.overlay second).overlay third = first.overlay (second.overlay third) :=
  (overlay_insertAll first second third.entries).symm

theorem overlay_self (map : OrderedMap α) : map.overlay map = map := by
  apply eq_of_keys
  · have none : (map.keys.filter fun name => name ∉ map.keys) = [] := by
      rw [List.filter_eq_nil_iff]
      intro name member
      simp [member]
    rw [keys_overlay, none, List.append_nil]
  · intro name
    rw [get?_overlay, Option.or_self]

theorem empty_overlay (map : OrderedMap α) : (∅ : OrderedMap α).overlay map = map :=
  ofList_entries map

theorem overlay_empty (map : OrderedMap α) : map.overlay ∅ = map :=
  rfl

/-! ## The laws of a merge -/

theorem merge_concat (maps : List (OrderedMap α)) (last : OrderedMap α) :
    merge (maps ++ [last]) = (merge maps).overlay last := by
  rw [merge, merge, List.foldl_append]
  rfl

/-- Two lists of maps can be merged one by one, and the second merge laid over the first. -/
theorem merge_append (first second : List (OrderedMap α)) :
    merge (first ++ second) = (merge first).overlay (merge second) := by
  induction second using List.reverseRecOn with
  | nil => rw [List.append_nil]; rfl
  | append_singleton maps last ih =>
    rw [← List.append_assoc, merge_concat, merge_concat, ih, overlay_assoc]

/-- The value of a name is that of the last map that has it. -/
theorem get?_merge (maps : List (OrderedMap α)) (name : String) :
    (merge maps).get? name = maps.reverse.findSome? fun map => map.get? name := by
  induction maps using List.reverseRecOn with
  | nil => rfl
  | append_singleton maps last ih =>
    rw [merge_concat, get?_overlay, ih, List.reverse_concat, List.findSome?_cons]
    cases last.get? name <;> rfl

/-- A search from the end finds what the last item gives that gives anything. -/
theorem findSome?_reverse_eq_some_iff {β γ : Type} {read : β → Option γ} {items : List β}
    {value : γ} :
    items.reverse.findSome? read = some value ↔
      ∃ before item after, items = before ++ item :: after ∧ read item = some value ∧
        ∀ later ∈ after, read later = none := by
  rw [List.findSome?_eq_some_iff]
  constructor
  · rintro ⟨after, item, before, split, found, unread⟩
    refine ⟨before.reverse, item, after.reverse, ?_, found, ?_⟩
    · rw [← List.reverse_reverse items, split]
      simp
    · intro later member
      exact unread later (List.mem_reverse.1 member)
  · rintro ⟨before, item, after, rfl, found, unread⟩
    refine ⟨after.reverse, item, before.reverse, by simp, found, ?_⟩
    intro later member
    exact unread later (List.mem_reverse.1 member)

/-- Where no name is repeated, there is nothing to erase. -/
theorem eraseDups_of_nodup {names : List String} (distinct : names.Nodup) :
    names.eraseDups = names := by
  induction names with
  | nil => rfl
  | cons name rest ih =>
    obtain ⟨absent, distinct⟩ := List.nodup_cons.1 distinct
    have kept : rest.filter (fun other => !other == name) = rest := by
      rw [List.filter_eq_self]
      intro other member
      have different : other ≠ name := fun same => absent (same ▸ member)
      simp [different]
    rw [List.eraseDups_cons, kept, ih distinct]

/-- The names of a merge stand in the order of their first appearance. -/
theorem keys_merge (maps : List (OrderedMap α)) :
    (merge maps).keys = (maps.flatMap keys).eraseDups := by
  induction maps using List.reverseRecOn with
  | nil => rfl
  | append_singleton maps last ih =>
    -- Names are new behind the merge exactly if they are new behind all maps before.
    have same : ∀ name, (!(maps.flatMap keys).elem name) = decide (name ∉ (merge maps).keys) := by
      intro name
      simp only [List.elem_eq_mem, ih, List.mem_eraseDups, decide_not]
    rw [merge_concat, keys_overlay, List.flatMap_append, List.flatMap_singleton,
      List.eraseDups_append, ← ih, List.removeAll, List.filter_congr fun name _ => same name,
      eraseDups_of_nodup (last.nodup_keys.filter _)]

/-- **The laws of merging.** The merge of a list of maps has no name twice, has its names in the
order of their first appearance and for each name the value of the last map that has it; lists of
maps can be merged in two parts. Laying parameters over one another is associative and idempotent,
and the empty map is neutral. -/
theorem merge_laws (α : Type) :
    (∀ maps : List (OrderedMap α),
      (merge maps).keys.Nodup ∧ (merge maps).keys = (maps.flatMap keys).eraseDups ∧
        ∀ name, (merge maps).get? name = maps.reverse.findSome? fun map => map.get? name) ∧
    (∀ first second : List (OrderedMap α),
      merge (first ++ second) = (merge first).overlay (merge second)) ∧
    (∀ first second third : OrderedMap α,
      (first.overlay second).overlay third = first.overlay (second.overlay third)) ∧
    ∀ map : OrderedMap α, map.overlay map = map ∧ overlay ∅ map = map ∧ map.overlay ∅ = map := by
  refine ⟨fun maps => ?_, merge_append, overlay_assoc, fun map => ?_⟩
  · exact ⟨(merge maps).nodup_keys, keys_merge maps, get?_merge maps⟩
  · exact ⟨overlay_self map, empty_overlay map, overlay_empty map⟩

/-- A name that comes again takes the new value to its old place. -/
example : merge [ofList [("width", 1), ("height", 2)], ofList [("color", 3), ("width", 4)]] =
    ofList [("width", 4), ("height", 2), ("color", 3)] := by decide

end OrderedMap

end Storyboard
