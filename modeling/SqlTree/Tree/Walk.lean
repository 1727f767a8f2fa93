import SqlTree.Tree.Node

set_option autoImplicit false

/-!
# Walks over trees

A walk lists a node, then what the walks of its children list, in their order. It ends because a
child is always smaller than its parent.

## Main definitions

* `SqlTree.Node.walk` — a node with all nodes below it.

## Main results

* `SqlTree.Node.sizeOf_lt_of_mem_children` — a child is smaller than its parent.
* `SqlTree.Node.walk_eq` — a walk is the node followed by the walks of its children.
-/

namespace SqlTree

/-! ## Sizes of statements and their nodes -/

/-- The node of a statement that reads or changes rows is no larger than the statement: the
constructor of the node takes the place of that of the statement. -/
theorem DataStatement.sizeOf_node_le (statement : DataStatement) :
    sizeOf statement.node ≤ sizeOf statement := by
  cases statement <;> simp [DataStatement.node]

/-- The node of a statement is no larger than the statement, as a statement that reads or changes
rows has one constructor more than its node. -/
theorem Statement.sizeOf_node_le (statement : Statement) :
    sizeOf statement.node ≤ sizeOf statement := by
  cases statement with
  | data inner =>
    have := inner.sizeOf_node_le
    simp only [Statement.node, Statement.data.sizeOf_spec]
    omega
  | _ => simp [Statement.node]

/-- The node of a member of a compound query is no larger than the member. -/
theorem QueryCore.sizeOf_node_le (core : QueryCore) : sizeOf core.node ≤ sizeOf core := by
  cases core <;> simp [QueryCore.node]

/-- The node of an entry is no larger than the entry. Where the entry is a statement, its node is
that of the statement. -/
theorem DriftEntry.sizeOf_node_le (entry : DriftEntry) : sizeOf entry.node ≤ sizeOf entry := by
  cases entry with
  | onCreate statement span =>
    have := statement.sizeOf_node_le
    simp only [DriftEntry.node, DriftEntry.onCreate.sizeOf_spec]
    omega
  | plain statement =>
    have := statement.sizeOf_node_le
    simp only [DriftEntry.node, DriftEntry.plain.sizeOf_spec]
    omega
  | _ => simp [DriftEntry.node]

/-- The arguments of a call are no larger than what the function is called with. -/
theorem Parameters.sizeOf_arguments_le (parameters : Parameters) :
    sizeOf parameters.arguments ≤ sizeOf parameters := by
  cases parameters <;> simp [Parameters.arguments]

/-- The offset of an end of a frame is no larger than the end. -/
theorem FrameBound.sizeOf_offset?_le (bound : FrameBound) :
    sizeOf bound.offset? ≤ sizeOf bound := by
  cases bound <;> simp [FrameBound.offset?]

namespace Node

/-! ## Sizes of children -/

/-- None of the nodes is larger than `size`. -/
def Within (size : Nat) (nodes : List Node) : Prop :=
  ∀ node ∈ nodes, sizeOf node ≤ size

variable {size : Nat}

/-- No nodes are within any size. -/
@[simp] theorem within_nil : Within size [] := by
  simp [Within]

/-- Nodes are within a size if the first one is, and the others are. -/
@[simp] theorem within_cons {node : Node} {nodes : List Node} :
    Within size (node :: nodes) ↔ sizeOf node ≤ size ∧ Within size nodes := by
  simp [Within]

/-- Two lists of nodes are within a size together if each of them is. -/
@[simp] theorem within_append {first second : List Node} :
    Within size (first ++ second) ↔ Within size first ∧ Within size second := by
  simp [Within, or_imp, forall_and]

/-- The nodes of the entries of a list are no larger than the list, where a node adds at most its
own constructor to its part: an entry is smaller than the list by more than that. -/
theorem within_each {α : Type} [SizeOf α] {node : α → Node} {parts : List α}
    (le : sizeOf parts ≤ size) (small : ∀ part, sizeOf (node part) ≤ 1 + sizeOf part) :
    Within size (each node parts) := by
  intro child mem
  obtain ⟨part, inParts, rfl⟩ := List.mem_map.1 mem
  have := List.sizeOf_lt_of_mem inParts
  have := small part
  omega

/-- The node of a part that may be missing is no larger than the optional part. -/
theorem within_maybe {α : Type} [SizeOf α] {node : α → Node} {part : Option α}
    (le : sizeOf part ≤ size) (small : ∀ part, sizeOf (node part) ≤ 1 + sizeOf part) :
    Within size (maybe node part) := by
  cases part with
  | none => simp [maybe]
  | some part =>
    have := small part
    simp only [Option.some.sizeOf_spec] at le
    simp only [maybe, Option.toList_some, List.map_cons, List.map_nil, within_cons, within_nil,
      and_true]
    omega

/-- The arguments of a call are within the size of what the function is called with. -/
theorem within_arguments {parameters : Parameters} (le : sizeOf parameters ≤ size) :
    Within size (each expr parameters.arguments) :=
  within_each (Nat.le_trans parameters.sizeOf_arguments_le le) (by simp)

/-- The offset of an end of a frame is within the size of the end. -/
theorem within_offset {bound : FrameBound} (le : sizeOf bound ≤ size) :
    Within size (maybe expr bound.offset?) :=
  within_maybe (Nat.le_trans bound.sizeOf_offset?_le le) (by simp)

/-- The values of all rows are within the size of the rows. -/
theorem within_rows {rows : List (List Expr)} (le : sizeOf rows ≤ size) :
    Within size (rows.flatMap (each expr)) := by
  intro child mem
  obtain ⟨row, inRows, mem⟩ := List.mem_flatMap.1 mem
  have := List.sizeOf_lt_of_mem inRows
  exact within_each (by omega) (by simp) child mem

/-- The nodes of what membership is tested in are within its size. -/
theorem within_ofInSource {source : InSource} (le : sizeOf source ≤ size) :
    Within size (ofInSource source) := by
  cases source <;>
    simp only [InSource.list.sizeOf_spec, InSource.subquery.sizeOf_spec, InSource.table.sizeOf_spec,
      InSource.variable.sizeOf_spec] at le <;>
    simp (disch := first | omega | (intros; simp)) [ofInSource, within_each] <;> omega

/-- The node of the window of a function, if the window is written out, is within its size. -/
theorem within_ofOver {window : Over} (le : sizeOf window ≤ size) :
    Within size (ofOver window) := by
  cases window with
  | window definition => simpa [ofOver] using le
  | named => simp [ofOver]

/-- **The children of an expression are within its size.** Each of them is a field of the
constructor, or is held by a field of it. -/
theorem within_ofExpr {part : Expr} (le : sizeOf part ≤ size) : Within size (ofExpr part) := by
  cases part <;> simp at le <;>
    simp (disch := first | omega | (intros; simp)) [ofExpr, within_each, within_maybe,
      within_arguments, within_ofInSource, within_ofOver] <;> omega

/-- The node of what joined rows have in common is within its size. -/
theorem within_ofJoinConstraint {constraint : JoinConstraint} (le : sizeOf constraint ≤ size) :
    Within size (ofJoinConstraint constraint) := by
  cases constraint with
  | condition expr => simpa [ofJoinConstraint] using le
  | columns => simp [ofJoinConstraint]

/-- The node of what joined rows may have in common is within the size of the optional part. -/
theorem within_joinConstraints {constraint : Option JoinConstraint}
    (le : sizeOf constraint ≤ size) :
    Within size (constraint.toList.flatMap ofJoinConstraint) := by
  cases constraint with
  | none => simp
  | some constraint =>
    simp only [Option.some.sizeOf_spec] at le
    simpa using within_ofJoinConstraint (by omega)

/-- The children of a table reference are within its size. -/
theorem within_ofTableRef {table : TableRef} (le : sizeOf table ≤ size) :
    Within size (ofTableRef table) := by
  cases table <;> simp at le <;>
    simp (disch := first | omega | (intros; simp)) [ofTableRef, within_each] <;> omega

/-- The child of a result column is within its size. -/
theorem within_ofResultColumn {column : ResultColumn} (le : sizeOf column ≤ size) :
    Within size (ofResultColumn column) := by
  cases column <;> simp at le <;> simp [ofResultColumn] <;> omega

/-- The expression that an item of a sorting clause sorts by is within its size. -/
theorem within_ofOrderingItem {item : OrderingItem} (le : sizeOf item ≤ size) :
    Within size (ofOrderingItem item) := by
  cases item with
  | term sorting => cases sorting; simp at le; simp [ofOrderingItem]; omega
  | placeholder => simp [ofOrderingItem]

/-- The count and the offset of a limit are within its size. -/
theorem within_ofLimitKind {kind : LimitKind} (le : sizeOf kind ≤ size) :
    Within size (ofLimitKind kind) := by
  cases kind with
  | expressions count offset =>
    simp only [LimitKind.expressions.sizeOf_spec] at le
    simp (disch := first | omega | (intros; simp)) [ofLimitKind, within_maybe]
    omega
  | placeholder => simp [ofLimitKind]

/-- The node of the source of an insertion is within its size. -/
theorem within_ofInsertSource {source : InsertSource} (le : sizeOf source ≤ size) :
    Within size (ofInsertSource source) := by
  cases source <;> simp at le <;> simp [ofInsertSource] <;> omega

/-- The assignments and the filter of a conflict clause are within its size. -/
theorem within_ofUpsertAction {action : UpsertAction} (le : sizeOf action ≤ size) :
    Within size (ofUpsertAction action) := by
  cases action <;> simp at le <;>
    simp (disch := first | omega | (intros; simp)) [ofUpsertAction, within_each, within_maybe]

/-- The child of what a constraint of a column demands is within its size. -/
theorem within_ofColumnConstraintKind {kind : ColumnConstraintKind} (le : sizeOf kind ≤ size) :
    Within size (ofColumnConstraintKind kind) := by
  cases kind <;> simp at le <;> simp [ofColumnConstraintKind] <;> omega

/-- The children of what a constraint of a table demands are within its size. -/
theorem within_ofTableConstraintKind {kind : TableConstraintKind} (le : sizeOf kind ≤ size) :
    Within size (ofTableConstraintKind kind) := by
  cases kind <;> simp at le <;>
    simp (disch := first | omega | (intros; simp)) [ofTableConstraintKind, within_each] <;> omega

/-- The child of a hint about a variable is within its size. -/
theorem within_ofStatementParameter {parameter : StatementParameter}
    (le : sizeOf parameter ≤ size) : Within size (ofStatementParameter parameter) := by
  cases parameter with
  | variableType =>
    simp only [StatementParameter.variableType.sizeOf_spec] at le
    simp (disch := first | omega | (intros; simp)) [ofStatementParameter, within_maybe]
  | defaultValue =>
    simp only [StatementParameter.defaultValue.sizeOf_spec] at le
    simp only [ofStatementParameter, within_cons, within_nil, and_true, expr.sizeOf_spec]
    omega

/-- The nodes of the statements of a trigger are within the size of its body. -/
theorem within_statements {statements : List Statement} (le : sizeOf statements ≤ size) :
    Within size (each Statement.node statements) :=
  within_each le fun statement => Nat.le_trans statement.sizeOf_node_le (by omega)

/-- The nodes of the entries of a drift file are within the size of the list of entries. -/
theorem within_driftEntries {list : List DriftEntry} (le : sizeOf list ≤ size) :
    Within size (each DriftEntry.node list) :=
  within_each le fun entry => Nat.le_trans entry.sizeOf_node_le (by omega)

/-- No child is larger than the part that its parent holds.

**Proof sketch.** By cases on the node. The constructor of the node, and that of its part, make room
for the fields; a field that is a list or may be missing is bounded by `within_each` and
`within_maybe`, and a part that is no node of its own by the lemma about its nodes (`within_ofExpr`,
`within_ofTableRef` and their siblings). Members of compound queries and statements with a name are
kept apart, since their nodes are of several kinds and their sizes are compared first. -/
theorem within_children (node : Node) : Within (sizeOf node - 1) node.children := by
  cases node with
  | declared part =>
    cases part with
    | mk _ _ _ statement _ =>
      have := statement.sizeOf_node_le
      simp (disch := first | omega | (intros; simp)) [children, within_each]
      omega
  | query part =>
    cases part with
    | mk _ core _ _ _ _ =>
      have := core.sizeOf_node_le
      simp (disch := first | omega | (intros; simp)) [children, within_each, within_maybe]
      omega
  | compoundPart part =>
    cases part with
    | mk _ core _ =>
      have := core.sizeOf_node_le
      simp [children]
      omega
  | expr | tableRef | resultColumn | orderingItem | statementParameter =>
    simp (disch := omega) [children, within_ofExpr, within_ofTableRef, within_ofResultColumn,
      within_ofOrderingItem, within_ofStatementParameter]
  | createTable part =>
    cases part with
    | mk definition =>
      cases definition
      simp (disch := first | omega | (intros; simp)) [children, within_each, within_maybe]
  | createView part | commonTable part | join part | whenClause part | namedWindow part
  | assignment part | indexedColumn part =>
    cases part
    simp (disch := first | omega | (intros; simp)) [children, within_maybe,
      within_joinConstraints]
    omega
  | _ part =>
    cases part
    simp (disch := first | omega | (intros; simp)) [children, within_each, within_maybe,
      within_offset, within_rows, within_ofLimitKind,
      within_ofInsertSource, within_ofUpsertAction, within_ofColumnConstraintKind,
      within_ofTableConstraintKind, within_statements, within_driftEntries]

/-- A child is smaller than its parent. -/
theorem sizeOf_lt_of_mem_children {child node : Node} (mem : child ∈ node.children) :
    sizeOf child < sizeOf node := by
  have := within_children node child mem
  have : 0 < sizeOf node := by cases node <;> exact Nat.add_pos_left Nat.one_pos _
  omega

/-! ## The walk -/

/-- A node with all nodes below it: the node itself first, then the walks of its children. -/
def walk (node : Node) : List Node :=
  node :: node.children.attach.flatMap fun child => child.1.walk
termination_by sizeOf node
decreasing_by exact sizeOf_lt_of_mem_children child.2

/-- A walk is the node followed by the walks of its children. -/
theorem walk_eq (node : Node) : node.walk = node :: node.children.flatMap walk := by
  rw [walk]
  simp [List.flatMap]

end Node

end SqlTree
