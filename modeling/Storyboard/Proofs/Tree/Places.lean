import Storyboard.Proofs.Tree.Nodes

/-!
# The places of a tree

A place is a tree with a hole: everything that surrounds one of its nodes. It is the list of the
surroundings that are met on the way out, the innermost first; each of them is a node of a kind
that has trees inside, without one of these trees. Putting a tree into a place fills the hole
(`Tree.within`).

A statement about all places is a statement about all occurrences: the nodes of a tree are exactly
the trees that fill one of its places (`Tree.mem_nodes_iff_within`).
-/

set_option autoImplicit false

namespace Storyboard

variable {ν : Type}

/-- A node with trees inside, without one of these trees. -/
inductive Surrounding (ν : Type) where
  | sequence (before after : List (Tree ν))
  | group (before after : List (Tree ν))
  | trigger (name : String) (before after : List (Tree ν))
  | transition (expression : String) (params : Params ν)
  | reference (defaults : Params ν)
  | animateRef (defaults overrides : Params ν)
  | query (selector : String) (optional : Bool) (limit : Option UInt64)
  | stagger (timing : Timing ν)

/-- The node with a tree put in. -/
def Surrounding.fill (inner : Tree ν) : Surrounding ν → Tree ν
  | sequence before after => .sequence (before ++ inner :: after)
  | group before after => .group (before ++ inner :: after)
  | trigger name before after => .trigger name (before ++ inner :: after)
  | transition expression params => .transition expression inner params
  | reference defaults => .reference inner defaults
  | animateRef defaults overrides => .animateRef inner defaults overrides
  | query selector optional limit => .query selector inner optional limit
  | stagger timing => .stagger timing inner

/-- What surrounds a tree, from the inside out. -/
abbrev Place (ν : Type) := List (Surrounding ν)

namespace Tree

/-- The tree that holds another one at a place. -/
def within (inner : Tree ν) : Place ν → Tree ν
  | [] => inner
  | surrounding :: outer => (surrounding.fill inner).within outer

theorem within_append (inner : Tree ν) (near far : Place ν) :
    inner.within (near ++ far) = (inner.within near).within far := by
  induction near generalizing inner with
  | nil => rfl
  | cons surrounding rest ih => exact ih (surrounding.fill inner)

/-! ## The nodes of a tree fill its places -/

theorem mem_allNodes_of_mem {node tree : Tree ν} {trees : List (Tree ν)} (member : tree ∈ trees)
    (inside : node ∈ tree.nodes) : node ∈ allNodes trees := by
  induction trees with
  | nil => cases member
  | cons first rest ih =>
    rw [allNodes, List.mem_append]
    rcases List.mem_cons.1 member with rfl | later
    · exact .inl inside
    · exact .inr (ih later)

theorem mem_nodes_self (tree : Tree ν) : tree ∈ tree.nodes := by
  cases tree <;> simp [nodes]

/-- The nodes of a tree are among the nodes of what surrounds it. -/
theorem mem_nodes_fill {node inner : Tree ν} (inside : node ∈ inner.nodes)
    (surrounding : Surrounding ν) : node ∈ (surrounding.fill inner).nodes := by
  cases surrounding with
  | sequence before after | group before after | trigger name before after =>
    refine List.mem_cons_of_mem _ (mem_allNodes_of_mem ?_ inside)
    exact List.mem_append_right _ List.mem_cons_self
  | transition | reference | animateRef | query | stagger => exact List.mem_cons_of_mem _ inside

theorem mem_nodes_within {node inner : Tree ν} (inside : node ∈ inner.nodes) (place : Place ν) :
    node ∈ (inner.within place).nodes := by
  induction place generalizing inner with
  | nil => exact inside
  | cons surrounding outer ih => exact ih (mem_nodes_fill inside surrounding)

/-- A place inside of a tree and what surrounds the tree make up a place. -/
theorem exists_within_fill {node inner : Tree ν} (stands : ∃ place, node.within place = inner)
    (surrounding : Surrounding ν) : ∃ place, node.within place = surrounding.fill inner := by
  obtain ⟨place, rfl⟩ := stands
  exact ⟨place ++ [surrounding], within_append node place [surrounding]⟩

mutual

/-- Every node of a tree stands at some place of it. -/
theorem exists_within_of_mem_nodes :
    ∀ (tree : Tree ν) {node : Tree ν}, node ∈ tree.nodes → ∃ place, node.within place = tree
  | .sequence steps, node, member => by
    rcases List.mem_cons.1 member with rfl | inside
    · exact ⟨[], rfl⟩
    · obtain ⟨before, inner, after, rfl, stands⟩ := exists_within_of_mem_allNodes steps inside
      exact exists_within_fill stands (.sequence before after)
  | .group branches, node, member => by
    rcases List.mem_cons.1 member with rfl | inside
    · exact ⟨[], rfl⟩
    · obtain ⟨before, inner, after, rfl, stands⟩ := exists_within_of_mem_allNodes branches inside
      exact exists_within_fill stands (.group before after)
  | .trigger name definitions, node, member => by
    rcases List.mem_cons.1 member with rfl | inside
    · exact ⟨[], rfl⟩
    · obtain ⟨before, inner, after, rfl, stands⟩ := exists_within_of_mem_allNodes definitions inside
      exact exists_within_fill stands (.trigger name before after)
  | .transition expression animation params, node, member => by
    rcases List.mem_cons.1 member with rfl | inside
    · exact ⟨[], rfl⟩
    · exact exists_within_fill (exists_within_of_mem_nodes animation inside)
        (.transition expression params)
  | .reference animation defaults, node, member => by
    rcases List.mem_cons.1 member with rfl | inside
    · exact ⟨[], rfl⟩
    · exact exists_within_fill (exists_within_of_mem_nodes animation inside) (.reference defaults)
  | .animateRef animation defaults overrides, node, member => by
    rcases List.mem_cons.1 member with rfl | inside
    · exact ⟨[], rfl⟩
    · exact exists_within_fill (exists_within_of_mem_nodes animation inside)
        (.animateRef defaults overrides)
  | .query selector animation optional limit, node, member => by
    rcases List.mem_cons.1 member with rfl | inside
    · exact ⟨[], rfl⟩
    · exact exists_within_fill (exists_within_of_mem_nodes animation inside)
        (.query selector optional limit)
  | .stagger timing animation, node, member => by
    rcases List.mem_cons.1 member with rfl | inside
    · exact ⟨[], rfl⟩
    · exact exists_within_fill (exists_within_of_mem_nodes animation inside) (.stagger timing)
  | .state .., _, member => ⟨[], List.mem_singleton.1 member⟩
  | .animate .., _, member => ⟨[], List.mem_singleton.1 member⟩
  | .keyframes .., _, member => ⟨[], List.mem_singleton.1 member⟩
  | .style .., _, member => ⟨[], List.mem_singleton.1 member⟩
  | .animateChild .., _, member => ⟨[], List.mem_singleton.1 member⟩

theorem exists_within_of_mem_allNodes :
    ∀ (trees : List (Tree ν)) {node : Tree ν}, node ∈ allNodes trees →
      ∃ before inner after, trees = before ++ inner :: after ∧
        ∃ place, node.within place = inner
  | [], _, member => nomatch member
  | tree :: rest, node, member => by
    rcases List.mem_append.1 member with here | later
    · exact ⟨[], tree, rest, rfl, exists_within_of_mem_nodes tree here⟩
    · obtain ⟨before, inner, after, rfl, stands⟩ := exists_within_of_mem_allNodes rest later
      exact ⟨tree :: before, inner, after, rfl, stands⟩

end

/-- **The nodes of a tree are what fills its places.** -/
theorem mem_nodes_iff_within {node tree : Tree ν} :
    node ∈ tree.nodes ↔ ∃ place, node.within place = tree := by
  constructor
  · exact exists_within_of_mem_nodes tree
  · rintro ⟨place, rfl⟩
    exact mem_nodes_within (mem_nodes_self node) place

end Tree

end Storyboard
