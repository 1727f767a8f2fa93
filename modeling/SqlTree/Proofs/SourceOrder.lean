import SqlTree.Proofs.Spans.Source
import SqlTree.Proofs.Walks

set_option autoImplicit false

/-!
# The order of children

Children are listed in the order of the source, with one exception: a limit lists its count before
its offset, and an offset may be written first. So a walk goes through the source from left to right
exactly if there is no such limit in it.

## Main definitions

* `SqlTree.Node.InOrder` — the children of a node start one after the other.
* `SqlTree.Node.IsOffsetFirst` — a limit whose offset is written before its count.

## Main results

* `SqlTree.Tape.Places.inOrder_or` — the children of a node that is placed are in order, unless it
  is such a limit.
* `SqlTree.Entry.children_inOrder` — the order of children and walks, for every accepted source.
* `SqlTree.Entry.limit_out_of_order` — a limit whose children are not in order.
-/

namespace SqlTree

namespace Node

/-- Each child starts before those that are listed after it. -/
def InOrder (node : Node) : Prop :=
  node.children.Pairwise fun child other => child.span.start < other.span.start

/-- A limit whose offset is written before its count. -/
def IsOffsetFirst : Node → Prop
  | .limit ⟨.expressions count (some offset), _⟩ => offset.span.start < count.span.start
  | _ => False

/-- Nodes that are listed in the order in which they start. -/
def Ascending (nodes : List Node) : Prop :=
  nodes.Pairwise fun node other => node.span.start ≤ other.span.start

variable {node : Node}

/-- A node has its offset first exactly if it is a limit whose offset starts before its count. -/
lemma isOffsetFirst_iff : node.IsOffsetFirst ↔ ∃ count offset span,
    node = .limit ⟨.expressions count (some offset), span⟩ ∧
      offset.span.start < count.span.start := by
  constructor
  · intro offsetFirst
    unfold IsOffsetFirst at offsetFirst
    split at offsetFirst
    · exact ⟨_, _, _, rfl, offsetFirst⟩
    · exact offsetFirst.elim
  · rintro ⟨count, offset, span, rfl, lt⟩
    exact lt

/-- Where an offset is written first, the children and the walk are not in order. -/
lemma IsOffsetFirst.not_ascending (offsetFirst : node.IsOffsetFirst) :
    ¬ Ascending node.children := by
  obtain ⟨count, offset, span, rfl, lt⟩ := isOffsetFirst_iff.mp offsetFirst
  intro ascending
  have pair : [expr count, expr offset].Pairwise fun node other =>
      node.span.start ≤ other.span.start := ascending
  have le := List.pairwise_pair.mp pair
  exact Nat.not_le_of_lt lt le

/-- The children of a node in order stand one after the other. -/
lemma InOrder.ascending (inOrder : node.InOrder) : Ascending node.children :=
  inOrder.imp Nat.le_of_lt

end Node

/-! ## Nodes that are placed -/

namespace Tape.Places

variable {tape : Tape} {i j : Nat} {node : Node}

/-- What is placed later starts later. -/
lemma start_lt_start {a b c d : Nat} {other : Node} (placed : tape.Places a b node)
    (placed' : tape.Places c d other) (le : b ≤ c) (inside : d ≤ tape.count) :
    node.span.start < other.span.start := by
  have lt := placed.lt
  have lt' := placed'.lt
  rw [placed.span, placed'.span]
  exact Nat.lt_of_lt_of_le (tape.nonempty a (by omega)) (tape.ordered a c (by omega))

/-- The children of a node that is placed stand in a row, unless it is a limit whose offset is
written before its count. -/
lemma row_or (placed : tape.Places i j node) (inside : j ≤ tape.count) :
    Row tape.Places i j node.children ∨ node.IsOffsetFirst := by
  cases placed with
  | node _ _ written children =>
    cases written with
    | listed => exact .inl children
    | offsetFirst count offset span =>
      obtain ⟨a, b, c, d, -, le, -, last, placed, placed'⟩ :=
        List.pairwise_pair.mp children.pairwise
      exact .inr (placed.start_lt_start placed' le (by omega))

/-- **The children of a node that is placed are in order**, unless it is a limit whose offset is
written before its count. -/
theorem inOrder_or (placed : tape.Places i j node) (inside : j ≤ tape.count) :
    node.InOrder ∨ node.IsOffsetFirst := by
  refine (placed.row_or inside).imp_left fun children => children.pairwise.imp ?_
  rintro child other ⟨a, b, c, d, -, le, -, last, placed, placed'⟩
  exact placed.start_lt_start placed' le (by omega)

/-- **A walk goes from left to right** where no limit has its offset written before its count. -/
theorem ascending_walk {i j : Nat} {node : Node} (placed : tape.Places i j node)
    (inside : j ≤ tape.count) (countFirst : ∀ below ∈ node.walk, ¬ below.IsOffsetFirst) :
    Node.Ascending node.walk := by
  have children : Row tape.Places i j node.children :=
    (placed.row_or inside).resolve_right (countFirst node node.self_mem_walk)
  have starts : ∀ below ∈ node.walk, node.span.start ≤ below.span.start := by
    intro below mem
    obtain ⟨a, b, first, -, placed'⟩ := placed.walk mem
    rw [placed.span, placed'.span]
    exact start_le first
  rw [Node.walk_eq] at countFirst starts ⊢
  refine List.pairwise_cons.mpr ⟨fun below mem => starts below (List.mem_cons_of_mem _ mem),
    List.pairwise_flatMap.mpr ⟨fun child isChild => ?_, children.pairwise.imp ?_⟩⟩
  · obtain ⟨a, b, -, last, placed'⟩ := placed.child isChild
    exact placed'.ascending_walk (by omega) fun below mem =>
      countFirst below (List.mem_cons_of_mem _ (List.mem_flatMap.mpr ⟨child, isChild, mem⟩))
  · -- the walk of one child is placed before that of the next one
    rintro child other ⟨a, b, c, d, -, le, -, -, placed, placed'⟩ below mem below' mem'
    obtain ⟨a', b', -, last, placed⟩ := placed.walk mem
    obtain ⟨c', d', first, -, placed'⟩ := placed'.walk mem'
    have := placed.lt
    rw [placed.span, placed'.span]
    exact start_le (by omega)
termination_by sizeOf node
decreasing_by exact Node.sizeOf_lt_of_mem_children isChild

end Tape.Places

/-! ## Accepted sources -/

namespace Entry

/-- **The order of children and walks.** In an accepted source the children of a node are in order,
unless the node is a limit whose offset is written before its count, and then they are not. Walks go
from left to right exactly if they do not come to such a limit. -/
theorem children_inOrder (entry : Entry) (dialect : Dialect) (source : String) {tree : entry.Tree}
    (accepted : entry.parse dialect source = .ok tree) {root : Node}
    (isRoot : root ∈ entry.roots tree) :
    (∀ node ∈ root.walk, node.InOrder ↔ ¬ node.IsOffsetFirst) ∧
    (Node.Ascending root.walk ↔ ∀ node ∈ root.walk, ¬ node.IsOffsetFirst) := by
  have descends : ∀ node ∈ root.walk, node.IsOffsetFirst → ¬ Node.Ascending root.walk := by
    intro node mem offsetFirst ascending
    have inner := ascending.sublist (Node.walk_infix mem).sublist
    rw [Node.walk_eq] at inner
    exact offsetFirst.not_ascending ((List.pairwise_cons.mp inner).2.sublist
      (Node.children_sublist_flatMap_walk node.children))
  have exclusive : ∀ node : Node, node.InOrder → ¬ node.IsOffsetFirst :=
    fun node inOrder offsetFirst => offsetFirst.not_ascending inOrder.ascending
  suffices holds : (∀ node ∈ root.walk, node.InOrder ∨ node.IsOffsetFirst) ∧
      ((∀ node ∈ root.walk, ¬ node.IsOffsetFirst) → Node.Ascending root.walk) from
    ⟨fun node mem => ⟨exclusive node, (holds.1 node mem).resolve_right⟩,
      fun ascending node mem offsetFirst => descends node mem offsetFirst ascending, holds.2⟩
  obtain ⟨i, j, inside, placed⟩ | ⟨walk, empty⟩ := entry.nodes_placed dialect source accepted isRoot
  · refine ⟨fun node mem => ?_, placed.ascending_walk inside⟩
    obtain ⟨a, b, -, last, placed⟩ := placed.walk mem
    exact placed.inOrder_or (by omega)
  · rw [walk]
    refine ⟨fun node mem => .inl ?_, fun _ => List.pairwise_singleton _ _⟩
    obtain rfl := List.mem_singleton.mp mem
    rw [Node.InOrder, empty.children]
    exact .nil

/-- The limit of `VALUES (1) LIMIT 5, 10` lists `10` before `5`. -/
theorem limit_out_of_order :
    let count : Expr := .literal (.integer 10) ⟨20, 22, 1, 21⟩
    let offset : Expr := .literal (.integer 5) ⟨17, 18, 1, 18⟩
    let limit : Limit := ⟨.expressions count (some offset), ⟨11, 22, 1, 12⟩⟩
    let query : Query := ⟨none, .values ⟨[[.literal (.integer 1) ⟨8, 9, 1, 9⟩]], ⟨0, 10, 1, 1⟩⟩, [],
      none, some limit, ⟨0, 22, 1, 1⟩⟩
    Entry.statement.parse .generic "VALUES (1) LIMIT 5, 10" = .ok (.data (.select query)) ∧
      Node.limit limit ∈ (Node.query query).walk ∧ ¬ (Node.limit limit).InOrder := by
  intro count offset limit query
  have isChild : Node.limit limit ∈ (Node.query query).children := by
    simp [query, Node.children, Node.maybe]
  refine ⟨rfl, Node.children_subset_walk isChild, fun inOrder => ?_⟩
  have isOffsetFirst : (Node.limit limit).IsOffsetFirst := by
    change 17 < 20
    omega
  exact isOffsetFirst.not_ascending inOrder.ascending

end Entry

end SqlTree
