import Mathlib.Data.List.Basic
import Mathlib.Tactic.Lemma
import SqlTree.Tree.Walk

set_option autoImplicit false

/-!
# Walks come to a node before what is below it

What follows an entry of a walk begins with the rest of the walk of that entry.

## Main results

* `SqlTree.Node.walk_split` — after each entry of a walk comes what is below it.
* `SqlTree.Node.walk_infix` — the walk of an entry is a part of the walk.
-/

namespace SqlTree.Node

variable {node below : Node}

/-- A walk comes to the node that it starts from. -/
@[simp] lemma self_mem_walk (node : Node) : node ∈ node.walk := by
  rw [walk_eq]
  exact List.mem_cons_self

/-- What the walk of a child comes to, the walk of its parent comes to. -/
lemma mem_walk_of_child {child : Node} (isChild : child ∈ node.children)
    (mem : below ∈ child.walk) : below ∈ node.walk := by
  rw [walk_eq]
  exact List.mem_cons_of_mem _ (List.mem_flatMap.mpr ⟨child, isChild, mem⟩)

/-- A property of all entries of a walk is one of the node and of all entries of the walks below. -/
lemma forall_walk_iff {property : Node → Prop} :
    (∀ below ∈ node.walk, property below) ↔
      property node ∧ ∀ child ∈ node.children, ∀ below ∈ child.walk, property below := by
  rw [walk_eq]
  simp only [List.mem_cons, List.mem_flatMap, forall_eq_or_imp]
  refine and_congr_right fun _ => ⟨fun all child mem below mem' => all below ⟨child, mem, mem'⟩, ?_⟩
  rintro all below ⟨child, mem, mem'⟩
  exact all child mem below mem'

/-- A walk comes to the children of the node that it starts from. -/
lemma children_subset_walk {child : Node} (mem : child ∈ node.children) : child ∈ node.walk :=
  mem_walk_of_child mem child.self_mem_walk

/-- The walks of some nodes come to these nodes in their order, by `self_mem_walk` for each of
them. -/
lemma children_sublist_flatMap_walk (nodes : List Node) :
    nodes.Sublist (nodes.flatMap walk) := by
  induction nodes with
  | nil => exact .slnil
  | cons first rest ih =>
    rw [List.flatMap_cons, walk_eq, List.cons_append]
    exact (ih.trans (List.sublist_append_right _ _)).cons_cons first

/-- An entry of several walks, one after the other, is an entry of one of them. -/
lemma flatMap_walk_split {nodes before after : List Node}
    (split : nodes.flatMap walk = before ++ below :: after)
    (each : ∀ first ∈ nodes, ∀ before after, first.walk = before ++ below :: after →
      ∃ rest, below :: after = below.walk ++ rest) :
    ∃ rest, below :: after = below.walk ++ rest := by
  induction nodes generalizing before with
  | nil => simp at split
  | cons first nodes ih =>
    have later : ∀ before, nodes.flatMap walk = before ++ below :: after →
        ∃ rest, below :: after = below.walk ++ rest :=
      fun before split => ih split fun other mem => each other (List.mem_cons_of_mem _ mem)
    rw [List.flatMap_cons] at split
    obtain ⟨passed, -, others⟩ | ⟨inner, walked, others⟩ := List.append_eq_append_iff.mp split
    · exact later passed others
    · cases inner with
      | nil => exact later [] others.symm
      | cons entry inner =>
        obtain ⟨rfl, others⟩ := List.cons_eq_cons.mp others
        obtain ⟨rest, eq⟩ := each first List.mem_cons_self before inner walked
        refine ⟨rest ++ nodes.flatMap walk, ?_⟩
        rw [others, ← List.append_assoc, ← eq]

/-- **A walk comes to a node before what is below it**: with each entry begins the walk of it. -/
theorem walk_split {node : Node} {before after : List Node}
    (split : node.walk = before ++ below :: after) :
    ∃ rest, below :: after = below.walk ++ rest := by
  rw [walk_eq] at split
  cases before with
  | nil =>
    obtain ⟨rfl, rfl⟩ := List.cons_eq_cons.mp split
    exact ⟨[], by rw [walk_eq, List.append_nil]⟩
  | cons first before =>
    exact flatMap_walk_split (List.cons_eq_cons.mp split).2 fun child isChild _ _ => walk_split
termination_by sizeOf node
decreasing_by exact sizeOf_lt_of_mem_children isChild

/-- The walk of an entry is a part of the walk. -/
theorem walk_infix (mem : below ∈ node.walk) : below.walk <:+: node.walk := by
  obtain ⟨before, after, split⟩ := List.append_of_mem mem
  obtain ⟨rest, eq⟩ := walk_split split
  exact ⟨before, rest, by rw [split, eq, List.append_assoc]⟩

end SqlTree.Node
