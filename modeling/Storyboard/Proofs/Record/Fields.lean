import Storyboard.Proofs.OrderedMap.Lookup
import Storyboard.Record.Field

/-!
# Fields that are read as they were stored

An object that holds the fields of a record, and nothing else, gives the record's fields their
values in order (`Json.fields?_object`). A number is read back from a document when it is stored
as a literal that means the number again (`Scalar.ReadsBack`); style values and style maps of such
numbers are read back with it, a map with its order, and are within the limits of a document.
-/

set_option autoImplicit false

namespace Storyboard

/-- A reader that takes each element of a list takes the list. -/
theorem mapM_eq_some_map {α β : Type} {read : α → Option β} {result : α → β} :
    ∀ {list : List α}, (∀ element ∈ list, read element = some (result element)) →
      list.mapM read = some (list.map result)
  | [], _ => rfl
  | element :: rest, reads => by
    rw [List.mapM_cons, reads element List.mem_cons_self,
      mapM_eq_some_map fun other member => reads other (List.mem_cons_of_mem _ member)]
    rfl

namespace Json

/-! ## Records -/

theorem filter_name {name : String} {value : Json} :
    ∀ {members : List (String × Json)}, (members.map Prod.fst).Nodup → (name, value) ∈ members →
      members.filter (fun member => member.1 == name) = [(name, value)]
  | [], _, member => absurd member List.not_mem_nil
  | (first, other) :: rest, distinct, member => by
    obtain ⟨absent, distinct⟩ := List.nodup_cons.1 distinct
    rcases List.mem_cons.1 member with same | later
    · cases same
      have none : rest.filter (fun member => member.1 == name) = [] := by
        rw [List.filter_eq_nil_iff]
        intro entry entryMember same
        exact absent (List.mem_map.2 ⟨entry, entryMember, beq_iff_eq.1 same⟩)
      rw [List.filter_cons, if_pos (beq_self_eq_true name), none]
    · have apart : ¬(first == name) = true := fun same =>
        absent (List.mem_map.2 ⟨(name, value), later, (beq_iff_eq.1 same).symm⟩)
      rw [List.filter_cons, if_neg apart, filter_name distinct later]

theorem field?_of_mem {members : List (String × Json)} {name : String} {value : Json}
    (distinct : (members.map Prod.fst).Nodup) (member : (name, value) ∈ members) :
    field? members name = some (some value) := by
  rw [field?, filter_name distinct member]

/-- The members of an object are the fields of the record that names them in their order. -/
theorem fields?_object {members : List (String × Json)} (least : Nat)
    (distinct : (members.map Prod.fst).Nodup) :
    (Json.object members).fields? (members.map Prod.fst) least =
      some (members.map fun member => some member.2) := by
  rw [fields?, List.mapM_map]
  exact mapM_eq_some_map fun member there => field?_of_mem distinct there

/-- The fields of a record that are stored under its names are read in their order. -/
theorem fields?_zip (names : List String) (values : List Json) (least : Nat)
    (distinct : names.Nodup) (same : names.length = values.length) :
    (Json.object (names.zip values)).fields? names least = some (values.map some) := by
  have first : (names.zip values).map Prod.fst = names := List.map_fst_zip (Nat.le_of_eq same)
  have second : (names.zip values).map Prod.snd = values :=
    List.map_snd_zip (Nat.le_of_eq same.symm)
  have read := fields?_object least (first.symm ▸ distinct)
  rw [first] at read
  rw [read, ← second, List.map_map, second]
  rfl

/-- A record of one field that is stored under its name is read. -/
theorem fields?_singleton (name : String) (value : Json) (least : Nat) :
    (Json.object [(name, value)]).fields? [name] least = some [some value] :=
  fields?_zip [name] [value] least (by simp) rfl

/-- How a field that may be missing is stored. -/
def orNull {α : Type} (write : α → Json) : Option α → Json
  | some value => write value
  | none => .null

/-- A field that may be missing is read as it was stored, if no value of it is stored as `null`. -/
theorem nullable?_orNull {α : Type} {read : Json → Option α} {write : α → Json} {field : Option α}
    (present : ∀ value ∈ field, write value ≠ .null)
    (reads : ∀ value ∈ field, read (write value) = some value) :
    nullable? read (some (orNull write field)) = some field := by
  cases field with
  | none => rfl
  | some value =>
    have notNull := present value rfl
    have back := reads value rfl
    rw [orNull]
    cases stored : write value with
    | null => exact absurd stored notNull
    | bool | number | string | array | object | unpaired =>
      rw [stored] at back
      exact congrArg (Option.map some) back

/-- A list is read back element by element. -/
theorem list?_map {α : Type} {read : Json → Option α} {write : α → Json} {list : List α}
    (reads : ∀ element ∈ list, read (write element) = some element) :
    list? read (.array (list.map write)) = some list := by
  have all : list.mapM (read ∘ write) = some (list.map id) := mapM_eq_some_map reads
  rw [list?, asArray?, Option.bind_some, List.mapM_map, all, List.map_id]

/-! ## Depths and readable parts -/

theorem depth_le_depthOfElements {elements : List Json} {element : Json}
    (member : element ∈ elements) : element.depth ≤ depthOfElements elements := by
  induction elements with
  | nil => exact absurd member List.not_mem_nil
  | cons first rest ih =>
    rw [depthOfElements]
    rcases List.mem_cons.1 member with same | later
    · rw [same]
      exact Nat.le_max_left _ _
    · exact Nat.le_trans (ih later) (Nat.le_max_right _ _)

section

variable {ν : Type} [Scalar ν]

theorem elementsReadable_iff {elements : List Json} :
    elementsReadable ν elements = true ↔ ∀ element ∈ elements, isReadable ν element = true := by
  induction elements with
  | nil => simp [elementsReadable]
  | cons element rest ih => simp [elementsReadable, ih]

theorem membersReadable_iff {members : List (String × Json)} :
    membersReadable ν members = true ↔ ∀ member ∈ members, isReadable ν member.2 = true := by
  induction members with
  | nil => simp [membersReadable]
  | cons member rest ih => simp [membersReadable, ih]

/-- An array is readable when what is written for each element is. -/
theorem isReadable_array {α : Type} {write : α → Json} {list : List α}
    (readable : ∀ element ∈ list, isReadable ν (write element) = true) :
    isReadable ν (.array (list.map write)) = true := by
  rw [isReadable, elementsReadable_iff]
  intro element member
  obtain ⟨source, sourceMember, rfl⟩ := List.mem_map.1 member
  exact readable source sourceMember

theorem isReadable_orNull {α : Type} {write : α → Json} {field : Option α}
    (readable : ∀ value ∈ field, isReadable ν (write value) = true) :
    isReadable ν (orNull write field) = true := by
  cases field with
  | none => rfl
  | some value => exact readable value rfl

theorem isReadable_ofText? (text : Option String) : isReadable ν (ofText? text) = true := by
  cases text <;> rfl

end

end Json

/-! ## Numbers and style values -/

variable {ν : Type} [Scalar ν]

/-- A document stores the number as a literal that means the number again. -/
def Scalar.ReadsBack (number : ν) : Prop :=
  ∃ literal, Scalar.literal? number = some literal ∧ Scalar.ofLiteral? literal = some number

/-- All numbers of a list are read back. -/
def AllReadBack (numbers : List ν) : Prop :=
  ∀ number ∈ numbers, Scalar.ReadsBack number

theorem allReadBack_append {first second : List ν} :
    AllReadBack (first ++ second) ↔ AllReadBack first ∧ AllReadBack second :=
  List.forall_mem_append

theorem AllReadBack.of_mem {α : Type} {numbers : α → List ν} {list : List α}
    (back : AllReadBack (list.flatMap numbers)) {element : α} (member : element ∈ list) :
    AllReadBack (numbers element) :=
  fun number inside => back number (List.mem_flatMap.2 ⟨element, member, inside⟩)

/-- A number that is read back is stored as a literal. -/
theorem Scalar.ReadsBack.ofScalar_eq {number : ν} (back : Scalar.ReadsBack number) :
    ∃ literal, Json.ofScalar number = .number literal ∧
      Scalar.ofLiteral? literal = some number := by
  obtain ⟨literal, written, read⟩ := back
  refine ⟨literal, ?_, read⟩
  rw [Json.ofScalar, written]

theorem Json.ofScalar_ne_null {number : ν} (back : Scalar.ReadsBack number) :
    Json.ofScalar number ≠ .null := by
  obtain ⟨literal, written, -⟩ := back.ofScalar_eq
  rw [written]
  exact Json.noConfusion

theorem Json.isReadable_ofScalar {number : ν} (back : Scalar.ReadsBack number) :
    (Json.ofScalar number).isReadable ν = true := by
  obtain ⟨literal, written, read⟩ := back.ofScalar_eq
  rw [written, isReadable, read, Option.isSome_some]

theorem Json.asScalar?_ofScalar {number : ν} (back : Scalar.ReadsBack number) :
    Json.asScalar? (Json.ofScalar number) = some number := by
  obtain ⟨literal, written, read⟩ := back.ofScalar_eq
  rw [written, asScalar?, read]

/-- The numbers of a style value. -/
def Value.numbers : Value ν → List ν
  | .number amount => [amount]
  | .text _ => []

/-- The numbers of a map of style values. -/
def Styles.numbers (map : Styles ν) : List ν :=
  map.entries.flatMap fun entry => entry.2.numbers

theorem Value.ofJson?_toJson {value : Value ν} (back : AllReadBack value.numbers) :
    Value.ofJson? value.toJson = some value := by
  cases value with
  | number amount =>
    obtain ⟨literal, written, read⟩ := (back amount (List.mem_singleton_self amount)).ofScalar_eq
    rw [toJson, written, ofJson?, read, Option.map_some]
  | text words => rfl

theorem Value.isReadable_toJson {value : Value ν} (back : AllReadBack value.numbers) :
    value.toJson.isReadable ν = true := by
  cases value with
  | number amount => exact Json.isReadable_ofScalar (back amount (List.mem_singleton_self amount))
  | text words => rfl

/-- A map is read back with its order. -/
theorem Styles.ofJson?_toJson {map : Styles ν} (back : AllReadBack map.numbers) :
    Styles.ofJson? map.toJson = some map := by
  have entries : map.entries.mapM
      ((fun member => (Value.ofJson? member.2).map fun value => (member.1, value)) ∘
        fun entry : String × Value ν => (entry.1, entry.2.toJson)) = some (map.entries.map id) := by
    refine mapM_eq_some_map fun entry member => ?_
    rw [Function.comp_apply, Value.ofJson?_toJson (back.of_mem member), Option.map_some]
    rfl
  rw [toJson, ofJson?, List.mapM_map, entries, List.map_id, Option.map_some,
    OrderedMap.ofList_entries]

theorem Styles.isReadable_toJson {map : Styles ν} (back : AllReadBack map.numbers) :
    map.toJson.isReadable ν = true := by
  rw [toJson, Json.isReadable, Json.membersReadable_iff]
  intro member there
  obtain ⟨entry, entryMember, rfl⟩ := List.mem_map.1 there
  exact Value.isReadable_toJson (back.of_mem entryMember)

end Storyboard
