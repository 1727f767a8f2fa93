import SqlTree.Proofs.Stored
import SqlTree.Proofs.Walks

set_option autoImplicit false

/-!
# Walks lose and repeat nothing

A walk goes from children to children, and the children of a node are listed by hand for each kind
of node. What is stored in a tree is defined without children. The two agree for every tree, whether
it has been read or not, so no child has been forgotten and none is listed twice.

## Main results

* `SqlTree.Node.stored_eq` — what is stored in a node is the node and what is stored in its
  children.
* `SqlTree.Node.walk_visits` — a walk comes to all that is stored in a node, once, and to each node
  before what is stored in it.
-/

namespace SqlTree

/-! ## Parts that are nodes of several kinds -/

/-- The node of a member of a compound query stores what the member stores. -/
@[simp] lemma QueryCore.stored_node (core : QueryCore) : core.node.stored = core.stored := by
  cases core <;> simp [QueryCore.node, Node.stored]

/-- The node of a statement that reads or changes rows stores what the statement stores. -/
@[simp] lemma DataStatement.stored_node (statement : DataStatement) :
    statement.node.stored = statement.stored := by
  cases statement <;> rfl

/-- The node of a statement stores what the statement stores, of whatever kind it is. -/
@[simp] lemma Statement.stored_node (statement : Statement) :
    statement.node.stored = statement.stored := by
  cases statement with
  | data inner =>
    rw [Statement.stored]
    exact inner.stored_node
  | _ =>
    rw [Statement.stored]
    rfl

/-- The node of an entry of a drift file stores what the entry stores. -/
@[simp] lemma DriftEntry.stored_node (entry : DriftEntry) : entry.node.stored = entry.stored := by
  cases entry with
  | onCreate statement | plain statement => exact statement.stored_node
  | _ => rfl

/-! ## Parts that are no nodes -/

/-- What a function is called with stores what its arguments store; an asterisk stores nothing. -/
@[simp] lemma Parameters.stored_eq (parameters : Parameters) :
    parameters.stored = parameters.arguments.flatMap Expr.stored := by
  cases parameters <;> simp [arguments]

/-- An end of a frame stores what its offset stores, if it has one. -/
@[simp] lemma FrameBound.stored_eq (bound : FrameBound) :
    bound.stored = bound.offset?.toList.flatMap Expr.stored := by
  cases bound <;> simp [offset?]

namespace Node

section

variable {α β : Type} (node : α → Node) (f : Node → List β)

/-- Going through the nodes of the entries of a list is going through the entries. -/
@[simp] lemma flatMap_each (parts : List α) :
    (each node parts).flatMap f = parts.flatMap fun part => f (node part) :=
  List.flatMap_map ..

/-- Going through the node of a part that may be missing is going through the part, if it is
there. -/
@[simp] lemma flatMap_maybe (part : Option α) :
    (maybe node part).flatMap f = part.toList.flatMap fun part => f (node part) :=
  List.flatMap_map ..

end

/-- The nodes of what membership is tested in store all that it stores. -/
@[simp] lemma stored_ofInSource (source : InSource) :
    (ofInSource source).flatMap stored = source.stored := by
  cases source <;> simp [ofInSource, stored]

/-- The node of the window of a function stores all that the window stores; a name stores
nothing. -/
@[simp] lemma stored_ofOver (window : Over) : (ofOver window).flatMap stored = window.stored := by
  cases window <;> simp [ofOver, stored]

/-- The node of what joined rows have in common stores all that it stores. -/
@[simp] lemma stored_ofJoinConstraint (constraint : JoinConstraint) :
    (ofJoinConstraint constraint).flatMap stored = constraint.stored := by
  cases constraint <;> simp [ofJoinConstraint, stored]

/-- The count and the offset of a limit store all that its kind stores. -/
@[simp] lemma stored_ofLimitKind (kind : LimitKind) :
    (ofLimitKind kind).flatMap stored = kind.stored := by
  cases kind <;> simp [ofLimitKind, stored]

/-- The node of the source of an insertion stores all that the source stores. -/
@[simp] lemma stored_ofInsertSource (source : InsertSource) :
    (ofInsertSource source).flatMap stored = source.stored := by
  cases source <;> simp [ofInsertSource, stored, InsertSource.stored]

/-- The assignments and the filter of a conflict clause store all that its action stores. -/
@[simp] lemma stored_ofUpsertAction (action : UpsertAction) :
    (ofUpsertAction action).flatMap stored = action.stored := by
  cases action <;> simp [ofUpsertAction, stored, UpsertAction.stored]

/-- The child of what a constraint of a column demands stores all that the demand stores. -/
@[simp] lemma stored_ofColumnConstraintKind (kind : ColumnConstraintKind) :
    (ofColumnConstraintKind kind).flatMap stored = kind.stored := by
  cases kind <;> simp [ofColumnConstraintKind, stored, ColumnConstraintKind.stored]

/-- The children of what a constraint of a table demands store all that the demand stores. -/
@[simp] lemma stored_ofTableConstraintKind (kind : TableConstraintKind) :
    (ofTableConstraintKind kind).flatMap stored = kind.stored := by
  cases kind <;> simp [ofTableConstraintKind, stored, TableConstraintKind.stored]

/-! ## Nodes and their children -/

/-- An expression stores itself and what its children store, for each kind of expression. -/
lemma expr_stored (part : Expr) : part.stored = .expr part :: (ofExpr part).flatMap stored := by
  cases part <;> simp [ofExpr, stored]

/-- A table reference stores itself and what its children store. -/
lemma tableRef_stored (table : TableRef) :
    table.stored = .tableRef table :: (ofTableRef table).flatMap stored := by
  cases table <;> simp [ofTableRef, stored]

/-- A result column stores itself and what its child stores. -/
lemma resultColumn_stored (column : ResultColumn) :
    column.stored = .resultColumn column :: (ofResultColumn column).flatMap stored := by
  cases column <;> simp [ofResultColumn, stored]

/-- An item of a sorting clause stores itself and what the expression that it sorts by stores. -/
lemma orderingItem_stored (item : OrderingItem) :
    item.stored = .orderingItem item :: (ofOrderingItem item).flatMap stored := by
  rcases item with ⟨_, _, _, _⟩ | _ <;> simp [ofOrderingItem, stored]

/-- A hint about a variable stores itself and what its type or its default value stores. -/
lemma statementParameter_stored (parameter : StatementParameter) :
    parameter.stored =
      .statementParameter parameter :: (ofStatementParameter parameter).flatMap stored := by
  cases parameter <;> simp [ofStatementParameter, stored, StatementParameter.stored]

/-- **What is stored in a node** is the node itself and what is stored in its children, in their
order.

**Proof sketch.** By cases on the node. Both sides list the fields of its part in the order of the
source; the lists of children are joined by `flatMap_each` and `flatMap_maybe`, and a field that is
no node of its own is read by the lemma about its nodes. Expressions, table references, result
columns, sorting items and hints have lemmas of their own, as their children depend on the
constructor. -/
theorem stored_eq (node : Node) : node.stored = node :: node.children.flatMap stored := by
  cases node with
  | expr part => exact expr_stored part
  | tableRef part => exact tableRef_stored part
  | resultColumn part => exact resultColumn_stored part
  | orderingItem part => exact orderingItem_stored part
  | statementParameter part => exact statementParameter_stored part
  | createVirtualTable | typeName | foreignKey | rowClass | imported => rfl
  | query part | compoundPart part | createTrigger part | driftFile part | declared part =>
    -- among the children are nodes of several kinds
    cases part
    simp only [children, List.flatMap_append, List.flatMap_cons, List.flatMap_nil, flatMap_each,
      flatMap_maybe, QueryCore.stored_node, Statement.stored_node, DriftEntry.stored_node]
    simp [stored, DriftFile.stored, DeclaredStatement.stored]
  | insert part => simp [children, stored, Insert.stored]
  | update part => simp [children, stored, Update.stored]
  | delete part => simp [children, stored, Delete.stored]
  | createTable part => simp [children, stored, CreateTable.stored]
  | createView part => simp [children, stored, CreateView.stored]
  | createIndex part => simp [children, stored, CreateIndex.stored]
  | assignment part => simp [children, stored, Assignment.stored]
  | upsert part => simp [children, stored, Upsert.stored]
  | conflictTarget part => simp [children, stored, ConflictTarget.stored]
  | returning part => simp [children, stored, Returning.stored]
  | columnDefinition part => simp [children, stored, ColumnDefinition.stored]
  | columnConstraint part => simp [children, stored, ColumnConstraint.stored]
  | tableConstraint part => simp [children, stored, TableConstraint.stored]
  | indexedColumn part => simp [children, stored, IndexedColumn.stored]
  | valuesClause part | join part =>
    cases part
    simp [children, List.flatMap_assoc, stored]
  | _ part =>
    cases part
    simp [children, stored]

/-! ## Walks -/

/-- A walk lists what is stored. -/
lemma walk_eq_stored (node : Node) : node.walk = node.stored := by
  rw [walk_eq, stored_eq]
  exact congrArg _ (List.flatMap_congr fun child isChild => walk_eq_stored child)
termination_by sizeOf node
decreasing_by exact sizeOf_lt_of_mem_children isChild

/-- **Walks lose and repeat nothing.** For every tree, a walk comes to the nodes that are stored in
it, to each as often as it is stored and to no others; and from each node it goes on to all that is
stored in this one, before it comes to anything else. -/
theorem walk_visits (node : Node) :
    node.walk = node.stored ∧
    ∀ before below after, node.walk = before ++ below :: after →
      ∃ inside outside, below.stored = below :: inside ∧ after = inside ++ outside := by
  refine ⟨node.walk_eq_stored, fun before below after split => ?_⟩
  obtain ⟨outside, eq⟩ := walk_split split
  rw [walk_eq, List.cons_append] at eq
  refine ⟨below.children.flatMap walk, outside, ?_, (List.cons_eq_cons.mp eq).2⟩
  rw [← walk_eq_stored, walk_eq]

end Node

end SqlTree
