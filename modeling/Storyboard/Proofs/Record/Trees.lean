import Storyboard.Proofs.Json.Documents
import Storyboard.Proofs.Number.Words
import Storyboard.Proofs.Record.Parts
import Storyboard.Proofs.Tree.Nodes

/-!
# Trees that are read as they were stored

A node is read from its record by the rules of its kind and with a reader for its children; when
the children are read as they were stored, so is the node (`Tree.ofNested?_of_children`). A node
nests at least one level deeper than its children, so the levels that a document may have bound the
depth of the reading, and the document of a tree is read as the tree (`Tree.read?_text`).

All that is asked is that every number of the tree is read back. For binary numbers this means that
they are finite and that the literal written for a number is read as the same number, which the
reader of literals does not promise for every literal (`Tree.document_reads_back`).
-/

set_option autoImplicit false

namespace Storyboard

variable {ν : Type} [Scalar ν]

/-! ## The numbers of a tree -/

mutual

/-- The style values, positions and times of a tree that are numbers. -/
def Tree.numbers : Tree ν → List ν
  | .state _ styles => styles.numbers
  | .transition _ animation params => animation.numbers ++ Styles.numbers params
  | .sequence steps => Tree.allNumbers steps
  | .group branches => Tree.allNumbers branches
  | .animate timing payload => timing.numbers ++ payload.toList.flatMap Payload.numbers
  | .keyframes steps => steps.flatMap StyleStep.numbers
  | .style step => step.numbers
  | .trigger _ definitions => Tree.allNumbers definitions
  | .reference animation defaults => animation.numbers ++ Styles.numbers defaults
  | .animateChild params => Styles.numbers params
  | .animateRef animation defaults overrides =>
    animation.numbers ++ Styles.numbers defaults ++ Styles.numbers overrides
  | .query _ animation _ _ => animation.numbers
  | .stagger timing animation => timing.numbers ++ animation.numbers

/-- The numbers of several trees. -/
def Tree.allNumbers : List (Tree ν) → List ν
  | [] => []
  | tree :: rest => tree.numbers ++ Tree.allNumbers rest

end

/-! ## What a node has from its children -/

namespace Tree

theorem allReadBack_of_mem_allNumbers {trees : List (Tree ν)}
    (back : AllReadBack (allNumbers trees)) : ∀ tree ∈ trees, AllReadBack tree.numbers := by
  induction trees with
  | nil => exact fun _ member => absurd member List.not_mem_nil
  | cons first rest ih =>
    obtain ⟨here, later⟩ := allReadBack_append.1 back
    exact List.forall_mem_cons.2 ⟨here, ih later⟩

theorem allReadBack_of_mem_children {tree child : Tree ν} (back : AllReadBack tree.numbers)
    (member : child ∈ tree.children) : AllReadBack child.numbers := by
  cases tree with
  | sequence trees | group trees | trigger _ trees =>
    exact allReadBack_of_mem_allNumbers back child member
  | transition _ animation _ | reference animation _ =>
    rw [List.mem_singleton.1 member]
    exact (allReadBack_append.1 back).1
  | animateRef animation _ _ =>
    rw [List.mem_singleton.1 member]
    exact (allReadBack_append.1 (allReadBack_append.1 back).1).1
  | query _ animation _ _ =>
    rw [List.mem_singleton.1 member]
    exact back
  | stagger _ animation =>
    rw [List.mem_singleton.1 member]
    exact (allReadBack_append.1 back).2
  | state | animate | keyframes | style | animateChild => exact absurd member List.not_mem_nil

theorem listToJson_eq_map (trees : List (Tree ν)) : listToJson trees = trees.map toJson := by
  induction trees with
  | nil => rfl
  | cons tree rest ih => rw [listToJson, ih, List.map_cons]

theorem depth_listToJson {trees : List (Tree ν)} {tree : Tree ν} (member : tree ∈ trees) :
    tree.toJson.depth ≤ Json.depthOfElements (listToJson trees) := by
  rw [listToJson_eq_map]
  exact Json.depth_le_depthOfElements (List.mem_map_of_mem member)

/-- A child nests less deep than its node. -/
theorem depth_lt_of_mem_children {tree child : Tree ν} (member : child ∈ tree.children) :
    child.toJson.depth < tree.toJson.depth := by
  cases tree with
  | sequence trees | group trees | trigger _ trees =>
    have inside : child.toJson.depth ≤ Json.depthOfElements (listToJson trees) :=
      depth_listToJson member
    simp only [toJson, tagged, Json.depth, Json.depthOfMembers]
    omega
  | transition _ animation _ | reference animation _ | animateRef animation _ _
  | query _ animation _ _ | stagger _ animation =>
    rw [List.mem_singleton.1 member]
    simp only [toJson, tagged, Json.depth, Json.depthOfMembers]
    omega
  | state | animate | keyframes | style | animateChild => exact absurd member List.not_mem_nil

/-- A record of a kind is read by the rules of the kind. -/
theorem ofNested?_tagged (kind : NodeKind) {members : List (String × Json)} (count : Nat)
    (nested : Bool) (absent : ∀ member ∈ members, member.1 ≠ kindKey) :
    ofNested? (ν := ν) (count + 1) nested (tagged kind.tag members) =
      ofRecord? (ofNested? count true) kind (.object members) := by
  simp only [ofNested?, splitKind?_tagged kind.tag absent, NodeKind.ofJson?, NodeKind.ofTag?_tag,
    Option.bind_eq_bind, Option.bind_some]

theorem limitOfJson?_toJson (limit : UInt64) :
    limitOfJson? (.number (Literal.ofNat limit.toNat)) = some limit := by
  have whole : (Literal.ofNat limit.toNat).toNat? = some limit.toNat := rfl
  rw [limitOfJson?, whole, Option.bind_some, if_pos limit.toNat_lt_size, UInt64.ofNat_toNat]

/-- A list of trees is read tree by tree. -/
theorem list?_listToJson {readTree : Json → Option (Tree ν)} {trees : List (Tree ν)}
    (reads : ∀ tree ∈ trees, readTree tree.toJson = some tree) :
    Json.list? readTree (.array (listToJson trees)) = some trees := by
  rw [listToJson_eq_map]
  exact Json.list?_map reads

theorem referenceOfJson?_members {readTree : Json → Option (Tree ν)} {animation : Tree ν}
    {defaults : Params ν} (read : readTree animation.toJson = some animation)
    (back : AllReadBack (Styles.numbers defaults)) :
    referenceOfJson? readTree
        (.object [("animation", animation.toJson), ("options", Params.toJson defaults)]) =
      some (animation, defaults) := by
  have fields : (Json.object [("animation", animation.toJson),
      ("options", Params.toJson defaults)]).fields? ["animation", "options"] 1 =
        some [some animation.toJson, some (Params.toJson defaults)] :=
    Json.fields?_zip _ [_, _] 1 (by decide) rfl
  have params := Params.ofJson?_toJson back
  simp only [referenceOfJson?, fields, Json.required?, Json.orDefault?, Option.bind_some, read,
    params]
  rfl

/-- A payload that may be missing is read as it was stored. -/
theorem nullable?_payload {payload : Option (Payload ν)}
    (back : AllReadBack (payload.toList.flatMap Payload.numbers)) :
    Json.nullable? Payload.ofJson? (some (Json.orNull Payload.toJson payload)) = some payload := by
  refine Json.nullable?_orNull (fun payload _ => ?_) fun payload same =>
    Payload.ofJson?_toJson (back.of_mem (Option.mem_toList.2 same))
  cases payload <;> exact Json.noConfusion

/-- How the limit of a query is stored. -/
def limitToJson (limit : UInt64) : Json :=
  .number (Literal.ofNat limit.toNat)

/-- A limit that may be missing is read as it was stored. -/
theorem nullable?_limit (limit : Option UInt64) :
    Json.nullable? limitOfJson? (some (Json.orNull limitToJson limit)) = some limit :=
  Json.nullable?_orNull (fun _ _ => Json.noConfusion) fun limit _ => limitOfJson?_toJson limit

theorem toJson_animate (timing : Timing ν) (payload : Option (Payload ν)) :
    toJson (.animate timing payload) = tagged NodeKind.animate.tag
      [("timings", timing.toJson), ("styles", Json.orNull Payload.toJson payload)] := by
  cases payload <;> rfl

theorem toJson_query (selector : String) (animation : Tree ν) (optional : Bool)
    (limit : Option UInt64) :
    toJson (.query selector animation optional limit) = tagged NodeKind.query.tag
      [("selector", .string selector), ("animation", animation.toJson),
        ("optional", .bool optional), ("limit", Json.orNull limitToJson limit)] := by
  cases limit <;> rfl

/-! ## One kind of node at a time -/

section Kinds

variable {readTree : Json → Option (Tree ν)}

theorem ofRecord?_state (name : String) {styles : StyleStep ν}
    (back : AllReadBack styles.numbers) :
    ofRecord? readTree .state (.object [("name", .string name), ("styles", styles.toJson)]) =
      some (.state name styles) := by
  have fields : (Json.object [("name", .string name), ("styles", styles.toJson)]).fields?
      ["name", "styles"] 2 = some [some (.string name), some styles.toJson] :=
    Json.fields?_zip _ [_, _] 2 (by decide) rfl
  have read : StyleStep.ofJson? styles.toJson = some styles := StyleStep.ofJson?_members back
  simp only [ofRecord?, fields, Json.required?, Json.asText?, Option.bind_some, read]
  rfl

theorem ofRecord?_transition (expression : String) {animation : Tree ν} {params : Params ν}
    (read : readTree animation.toJson = some animation)
    (back : AllReadBack (Styles.numbers params)) :
    ofRecord? readTree .transition (.object [("expr", .string expression),
        ("animation", animation.toJson), ("options", Params.toJson params)]) =
      some (.transition expression animation params) := by
  have fields : (Json.object [("expr", .string expression), ("animation", animation.toJson),
      ("options", Params.toJson params)]).fields? ["expr", "animation", "options"] 2 =
        some [some (.string expression), some animation.toJson, some (Params.toJson params)] :=
    Json.fields?_zip _ [_, _, _] 2 (by decide) rfl
  have readParams := Params.ofJson?_toJson back
  simp only [ofRecord?, fields, Json.required?, Json.asText?, Json.orDefault?, Option.bind_some,
    read, readParams]
  rfl

theorem ofRecord?_animate {timing : Timing ν} {payload : Option (Payload ν)}
    (backTiming : AllReadBack timing.numbers)
    (backPayload : AllReadBack (payload.toList.flatMap Payload.numbers)) :
    ofRecord? readTree .animate (.object [("timings", timing.toJson),
        ("styles", Json.orNull Payload.toJson payload)]) = some (.animate timing payload) := by
  have fields : (Json.object [("timings", timing.toJson),
      ("styles", Json.orNull Payload.toJson payload)]).fields? ["timings", "styles"] 1 =
        some [some timing.toJson, some (Json.orNull Payload.toJson payload)] :=
    Json.fields?_zip _ [_, _] 1 (by decide) rfl
  have readTiming := Timing.ofJson?_toJson backTiming
  have readPayload := nullable?_payload backPayload
  simp only [ofRecord?, fields, Json.required?, Option.bind_some, readTiming, readPayload]
  rfl

theorem ofRecord?_trigger (name : String) {definitions : List (Tree ν)}
    (reads : ∀ tree ∈ definitions, readTree tree.toJson = some tree) :
    ofRecord? readTree .trigger (.object [("name", .string name),
        ("definitions", .array (listToJson definitions))]) = some (.trigger name definitions) := by
  have fields : (Json.object [("name", .string name),
      ("definitions", .array (listToJson definitions))]).fields? ["name", "definitions"] 2 =
        some [some (.string name), some (.array (listToJson definitions))] :=
    Json.fields?_zip _ [_, _] 2 (by decide) rfl
  simp only [ofRecord?, fields, Json.required?, Json.asText?, Option.bind_some,
    list?_listToJson reads]
  rfl

theorem ofRecord?_reference {animation : Tree ν} {defaults : Params ν}
    (read : readTree animation.toJson = some animation)
    (back : AllReadBack (Styles.numbers defaults)) :
    ofRecord? readTree .reference (.object [("animation", animation.toJson),
        ("options", Params.toJson defaults)]) = some (.reference animation defaults) := by
  simp only [ofRecord?, referenceOfJson?_members read back]
  rfl

theorem ofRecord?_animateRef {animation : Tree ν} {defaults overrides : Params ν}
    (read : readTree animation.toJson = some animation)
    (back : AllReadBack (Styles.numbers defaults))
    (backOverrides : AllReadBack (Styles.numbers overrides)) :
    ofRecord? readTree .animateRef (.object [("animation", .object [("animation",
        animation.toJson), ("options", Params.toJson defaults)]),
        ("options", Params.toJson overrides)]) =
      some (.animateRef animation defaults overrides) := by
  have fields : (Json.object [("animation", .object [("animation", animation.toJson),
      ("options", Params.toJson defaults)]), ("options", Params.toJson overrides)]).fields?
        ["animation", "options"] 1 = some [some (.object [("animation", animation.toJson),
          ("options", Params.toJson defaults)]), some (Params.toJson overrides)] :=
    Json.fields?_zip _ [_, _] 1 (by decide) rfl
  have readReference := referenceOfJson?_members read back
  have readOverrides := Params.ofJson?_toJson backOverrides
  simp only [ofRecord?, fields, Json.required?, Json.orDefault?, Option.bind_some, readReference,
    readOverrides]
  rfl

theorem ofRecord?_query (selector : String) {animation : Tree ν} (optional : Bool)
    (limit : Option UInt64) (read : readTree animation.toJson = some animation) :
    ofRecord? readTree .query (.object [("selector", .string selector),
        ("animation", animation.toJson), ("optional", .bool optional),
        ("limit", Json.orNull limitToJson limit)]) =
      some (.query selector animation optional limit) := by
  have fields : (Json.object [("selector", .string selector), ("animation", animation.toJson),
      ("optional", .bool optional), ("limit", Json.orNull limitToJson limit)]).fields?
        ["selector", "animation", "optional", "limit"] 2 = some [some (.string selector),
          some animation.toJson, some (.bool optional), some (Json.orNull limitToJson limit)] :=
    Json.fields?_zip _ [_, _, _, _] 2 (by decide) rfl
  have readLimit := nullable?_limit limit
  simp only [ofRecord?, fields, Json.required?, Json.asText?, Json.asBool?, Json.orDefault?,
    Option.bind_some, read, readLimit]
  rfl

theorem ofRecord?_stagger {timing : Timing ν} {animation : Tree ν}
    (back : AllReadBack timing.numbers) (read : readTree animation.toJson = some animation) :
    ofRecord? readTree .stagger (.object [("timings", timing.toJson),
        ("animation", animation.toJson)]) = some (.stagger timing animation) := by
  have fields : (Json.object [("timings", timing.toJson),
      ("animation", animation.toJson)]).fields? ["timings", "animation"] 2 =
        some [some timing.toJson, some animation.toJson] :=
    Json.fields?_zip _ [_, _] 2 (by decide) rfl
  have readTiming := Timing.ofJson?_toJson back
  simp only [ofRecord?, fields, Json.required?, Option.bind_some, read, readTiming]
  rfl

theorem ofRecord?_sequence {steps : List (Tree ν)}
    (reads : ∀ tree ∈ steps, readTree tree.toJson = some tree) :
    ofRecord? readTree .sequence (.object [("steps", .array (listToJson steps))]) =
      some (.sequence steps) := by
  have fields := Json.fields?_singleton "steps" (.array (listToJson steps)) 1
  simp only [ofRecord?, fields, Json.required?, Option.bind_some, list?_listToJson reads,
    Option.map_some]

theorem ofRecord?_group {branches : List (Tree ν)}
    (reads : ∀ tree ∈ branches, readTree tree.toJson = some tree) :
    ofRecord? readTree .group (.object [("steps", .array (listToJson branches))]) =
      some (.group branches) := by
  have fields := Json.fields?_singleton "steps" (.array (listToJson branches)) 1
  simp only [ofRecord?, fields, Json.required?, Option.bind_some, list?_listToJson reads,
    Option.map_some]

theorem ofRecord?_keyframes {steps : List (StyleStep ν)}
    (back : AllReadBack (steps.flatMap StyleStep.numbers)) :
    ofRecord? readTree .keyframes
        (.object [("steps", .array (steps.map StyleStep.toJson))]) = some (.keyframes steps) := by
  have fields := Json.fields?_singleton "steps" (.array (steps.map StyleStep.toJson)) 1
  simp only [ofRecord?, fields, Json.required?, Option.bind_some, StyleStep.list?_toJson back,
    Option.map_some]

theorem ofRecord?_animateChild {params : Params ν} (back : AllReadBack (Styles.numbers params)) :
    ofRecord? readTree .animateChild (.object [("options", Params.toJson params)]) =
      some (.animateChild params) := by
  have fields := Json.fields?_singleton "options" (Params.toJson params) 0
  simp only [ofRecord?, fields, Json.orDefault?, Params.ofJson?_toJson back, Option.map_some]

theorem ofRecord?_style {step : StyleStep ν} (back : AllReadBack step.numbers) :
    ofRecord? readTree .style (.object step.members) = some (.style step) := by
  simp only [ofRecord?, StyleStep.ofJson?_members back, Option.map_some]

end Kinds

/-! ## Whole trees -/

/-- A node is read as it was stored as soon as its children are. -/
theorem ofNested?_of_children {tree : Tree ν} (back : AllReadBack tree.numbers) (count : Nat)
    (nested : Bool)
    (reads : ∀ child ∈ tree.children, ofNested? count true child.toJson = some child) :
    ofNested? (count + 1) nested tree.toJson = some tree := by
  cases tree with
  | state name styles =>
    exact (ofNested?_tagged .state count nested (by simp [kindKey])).trans
      (ofRecord?_state name back)
  | transition expression animation params =>
    exact (ofNested?_tagged .transition count nested (by simp [kindKey])).trans
      (ofRecord?_transition expression (reads animation (List.mem_singleton_self animation))
        (allReadBack_append.1 back).2)
  | sequence steps =>
    exact (ofNested?_tagged .sequence count nested (by simp [kindKey])).trans
      (ofRecord?_sequence reads)
  | group branches =>
    exact (ofNested?_tagged .group count nested (by simp [kindKey])).trans
      (ofRecord?_group reads)
  | animate timing payload =>
    obtain ⟨backTiming, backPayload⟩ := allReadBack_append.1 back
    rw [toJson_animate, ofNested?_tagged .animate count nested (by simp [kindKey])]
    exact ofRecord?_animate backTiming backPayload
  | keyframes steps =>
    exact (ofNested?_tagged .keyframes count nested (by simp [kindKey])).trans
      (ofRecord?_keyframes back)
  | style step =>
    exact (ofNested?_tagged .style count nested step.members_names).trans (ofRecord?_style back)
  | trigger name definitions =>
    exact (ofNested?_tagged .trigger count nested (by simp [kindKey])).trans
      (ofRecord?_trigger name reads)
  | reference animation defaults =>
    exact (ofNested?_tagged .reference count nested (by simp [kindKey])).trans
      (ofRecord?_reference (reads animation (List.mem_singleton_self animation))
        (allReadBack_append.1 back).2)
  | animateChild params =>
    exact (ofNested?_tagged .animateChild count nested (by simp [kindKey])).trans
      (ofRecord?_animateChild back)
  | animateRef animation defaults overrides =>
    obtain ⟨backInner, backOverrides⟩ := allReadBack_append.1 back
    exact (ofNested?_tagged .animateRef count nested (by simp [kindKey])).trans
      (ofRecord?_animateRef (reads animation (List.mem_singleton_self animation))
        (allReadBack_append.1 backInner).2 backOverrides)
  | query selector animation optional limit =>
    rw [toJson_query, ofNested?_tagged .query count nested (by simp [kindKey])]
    exact ofRecord?_query selector optional limit
      (reads animation (List.mem_singleton_self animation))
  | stagger timing animation =>
    exact (ofNested?_tagged .stagger count nested (by simp [kindKey])).trans
      (ofRecord?_stagger (allReadBack_append.1 back).1
        (reads animation (List.mem_singleton_self animation)))

/-- A tree is read as it was stored, wherever it stands, if the levels of its document suffice. -/
theorem ofNested?_toJson (tree : Tree ν) : AllReadBack tree.numbers → ∀ (count : Nat)
    (nested : Bool), tree.toJson.depth ≤ count →
      ofNested? count nested tree.toJson = some tree := by
  induction tree using children_induction with
  | step tree ih =>
    intro back count nested shallow
    cases count with
    | zero =>
      have nests : 0 < tree.toJson.depth := by
        cases tree <;> exact Nat.succ_pos _
      omega
    | succ count =>
      refine ofNested?_of_children back count nested fun child member => ?_
      have inside := depth_lt_of_mem_children member
      exact ih child member (allReadBack_of_mem_children back member) count true (by omega)

/-! ## Readable documents -/

theorem isReadable_listToJson {trees : List (Tree ν)}
    (readable : ∀ tree ∈ trees, tree.toJson.isReadable ν = true) :
    Json.isReadable ν (.array (listToJson trees)) = true := by
  rw [listToJson_eq_map]
  exact Json.isReadable_array readable

/-- A document is readable as soon as its limits and the documents of its children are. -/
theorem isReadable_of_children {tree : Tree ν} (back : AllReadBack tree.numbers)
    (limits : ∀ limit, (limitToJson limit).isReadable ν = true)
    (readable : ∀ child ∈ tree.children, child.toJson.isReadable ν = true) :
    tree.toJson.isReadable ν = true := by
  cases tree with
  | state name styles =>
    have inner : styles.toJson.isReadable ν = true := StyleStep.membersReadable_members back
    rw [toJson, isReadable_tagged]
    simp only [Json.membersReadable, inner, Json.isReadable, Bool.and_self]
  | transition expression animation params =>
    have inner := readable animation (List.mem_singleton_self animation)
    have options := Params.isReadable_toJson (allReadBack_append.1 back).2
    rw [toJson, isReadable_tagged]
    simp only [Json.membersReadable, inner, options, Json.isReadable, Bool.and_self]
  | sequence trees | group trees =>
    have inner : Json.isReadable ν (.array (listToJson trees)) = true :=
      isReadable_listToJson readable
    rw [toJson, isReadable_tagged, Json.membersReadable, inner]
    rfl
  | animate timing payload =>
    obtain ⟨backTiming, backPayload⟩ := allReadBack_append.1 back
    have time := Timing.isReadable_toJson backTiming
    have target : Json.isReadable ν (Json.orNull Payload.toJson payload) = true :=
      Json.isReadable_orNull fun payload same =>
        Payload.isReadable_toJson (backPayload.of_mem (Option.mem_toList.2 same))
    rw [toJson_animate, isReadable_tagged]
    simp only [Json.membersReadable, time, target, Bool.and_self]
  | keyframes steps =>
    rw [toJson, isReadable_tagged, Json.membersReadable, StyleStep.isReadable_list back]
    rfl
  | style step =>
    rw [toJson, isReadable_tagged]
    exact StyleStep.membersReadable_members back
  | trigger name definitions =>
    have inner : Json.isReadable ν (.array (listToJson definitions)) = true :=
      isReadable_listToJson readable
    rw [toJson, isReadable_tagged, Json.membersReadable, Json.membersReadable, inner]
    rfl
  | reference animation defaults =>
    have inner := readable animation (List.mem_singleton_self animation)
    have options := Params.isReadable_toJson (allReadBack_append.1 back).2
    rw [toJson, isReadable_tagged]
    simp only [Json.membersReadable, inner, options, Bool.and_self]
  | animateChild params =>
    have options := Params.isReadable_toJson back
    rw [toJson, isReadable_tagged]
    simp only [Json.membersReadable, options, Bool.and_self]
  | animateRef animation defaults overrides =>
    obtain ⟨backInner, backOverrides⟩ := allReadBack_append.1 back
    have inner := readable animation (List.mem_singleton_self animation)
    have options := Params.isReadable_toJson (allReadBack_append.1 backInner).2
    have own := Params.isReadable_toJson backOverrides
    rw [toJson, isReadable_tagged]
    simp only [Json.membersReadable, Json.isReadable, inner, options, own, Bool.and_self]
  | query selector animation optional limit =>
    have inner := readable animation (List.mem_singleton_self animation)
    have bound : Json.isReadable ν (Json.orNull limitToJson limit) = true :=
      Json.isReadable_orNull fun limit _ => limits limit
    rw [toJson_query, isReadable_tagged]
    simp only [Json.membersReadable, Json.isReadable, inner, bound, Bool.and_self]
  | stagger timing animation =>
    have inner := readable animation (List.mem_singleton_self animation)
    have time := Timing.isReadable_toJson (allReadBack_append.1 back).1
    rw [toJson, isReadable_tagged]
    simp only [Json.membersReadable, inner, time, Bool.and_self]

/-- The document of a tree is readable as soon as its limits are. -/
theorem isReadable_toJson (limits : ∀ limit, (limitToJson limit).isReadable ν = true)
    (tree : Tree ν) : AllReadBack tree.numbers → tree.toJson.isReadable ν = true := by
  induction tree using children_induction with
  | step tree ih =>
    intro back
    exact isReadable_of_children back limits fun child member =>
      ih child member (allReadBack_of_mem_children back member)

/-- The document of a tree whose numbers are read back is read as the tree. -/
theorem read?_text {tree : Tree ν} (limits : ∀ limit, (limitToJson limit).isReadable ν = true)
    (back : AllReadBack tree.numbers) (shallow : tree.toJson.depth ≤ Json.documentDepth) :
    read? tree.text = some tree := by
  have readable := isReadable_toJson limits tree back
  have admitted : (tree.toJson.depth ≤ Json.documentDepth && tree.toJson.isReadable ν) = true := by
    rw [readable, Bool.and_true]
    exact decide_eq_true shallow
  rw [read?, text, Json.read?_text ν readable, Option.bind_some, ofDocument?, Json.document?,
    if_pos admitted]
  exact ofNested?_toJson tree back Json.documentDepth false shallow

end Tree

/-! ## Trees of binary numbers -/

/-- Every finite number is written as a literal. -/
theorem Binary64.exists_literal {number : Binary64} (finite : number.isFinite = true) :
    ∃ literal, number.literal? = some literal := by
  cases number with
  | nan | infinite => exact absurd finite Bool.false_ne_true
  | finite negative units held =>
    by_cases zero : units = 0
    · exact ⟨_, if_pos zero⟩
    · exact ⟨_, if_neg zero⟩

theorem Binary64.readsBack_of_isFinite {number : Binary64} (finite : number.isFinite = true)
    (back : ∀ literal ∈ number.literal?, Binary64.ofLiteral? literal = some number) :
    Scalar.ReadsBack number := by
  obtain ⟨literal, written⟩ := exists_literal finite
  exact ⟨literal, written, back literal written⟩

theorem Binary64.isReadable_limitToJson (limit : UInt64) :
    (Tree.limitToJson limit).isReadable Binary64 = true :=
  ofLiteral?_ofNat_isSome limit.toNat_lt

/-- **Loading undoes storing.** A tree of any kind of node whose numbers are finite and whose
document nests at most 127 arrays and objects is read back from its document, with the order of its
maps, its optional fields and the form of each timing and value. What is asked of the numbers is
that the literal written for each of them is read as the same number. -/
theorem Tree.document_reads_back {tree : Tree Binary64}
    (finite : ∀ number ∈ tree.numbers, number.isFinite = true)
    (back : ∀ number ∈ tree.numbers, ∀ literal ∈ number.literal?,
      Binary64.ofLiteral? literal = some number)
    (shallow : tree.toJson.depth ≤ 127) : Tree.read? tree.text = some tree := by
  have allBack : AllReadBack tree.numbers := fun number member =>
    Binary64.readsBack_of_isFinite (finite number member) (back number member)
  exact Tree.read?_text Binary64.isReadable_limitToJson allBack shallow

/-- A list of cards that come in one after the other, with parameters, positions and escapes. -/
def cardEntrance : Tree Binary64 :=
  .trigger "cards" [
    .state "void, hidden"
      (.ofEntries [("opacity", .number 0), ("content", .text "\"\\\n\u0001é")]),
    .transition "void => *" (.sequence [
      .group [
        .animate (.resolved ⟨Binary64.ofNat 250, 0, some "ease-in"⟩)
          (some (.keyframes [⟨[.ofList [("left", .text "1px"), ("left", .number 1)]],
            some (Binary64.div 1 (Binary64.ofNat 3))⟩, ⟨[], none⟩])),
        .reference (.animateEmpty (.expression "\x7b\x7b time \x7d\x7d"))
          (.ofList [("time", .text "1s")]),
        .animate (.millis (Binary64.neg 0)) (some (.style (.ofEntries [("top", .number 1)])))],
      .query ".card" (.stagger (.millis (Binary64.ofNat 50))
        (.animateRef (.keyframes []) ∅ (.ofList [("width", .number (Binary64.ofNat 12000))])))
          true (some 3),
      .animateChild ∅])
      (.ofList [("z", .number 1), ("a", .text "2")])]

theorem cardEntrance_reads_back :
    (∀ number ∈ cardEntrance.numbers, number.isFinite = true) ∧
    (∀ number ∈ cardEntrance.numbers, ∀ literal ∈ number.literal?,
      Binary64.ofLiteral? literal = some number) ∧
    cardEntrance.toJson.depth ≤ 127 ∧
    Tree.read? cardEntrance.text = some cardEntrance := by
  have finite : ∀ number ∈ cardEntrance.numbers, number.isFinite = true := by decide +kernel
  have back : ∀ number ∈ cardEntrance.numbers, ∀ literal ∈ number.literal?,
      Binary64.ofLiteral? literal = some number := by decide +kernel
  have shallow : cardEntrance.toJson.depth ≤ 127 := by decide +kernel
  exact ⟨finite, back, shallow, Tree.document_reads_back finite back shallow⟩

end Storyboard
