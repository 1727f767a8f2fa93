import SqlTree.Tree.DriftFile

set_option autoImplicit false

/-!
# Nodes of trees

Every part of a tree that is written somewhere of its own is a node. Its children are the nodes
directly below it. They are listed in the order of the source, but for limits: these list their
count before their offset, whichever is written first.

## Main definitions

* `SqlTree.Node` — the parts of trees, of any type.
* `SqlTree.Node.span` — where a node is written.
* `SqlTree.Node.children` — the nodes directly below a node.
-/

namespace SqlTree

/-- A part of a tree that is written somewhere. -/
inductive Node where
  | expr (part : Expr)
  | query (part : Query)
  | insert (part : Insert)
  | update (part : Update)
  | delete (part : Delete)
  | createTable (part : CreateTable)
  | createVirtualTable (part : CreateVirtualTable)
  | createView (part : CreateView)
  | createTrigger (part : CreateTrigger)
  | createIndex (part : CreateIndex)
  | withClause (part : WithClause)
  | commonTable (part : CommonTable)
  | selectClause (part : SelectClause)
  | valuesClause (part : ValuesClause)
  | compoundPart (part : CompoundPart)
  | resultColumn (part : ResultColumn)
  | tableRef (part : TableRef)
  | join (part : Join)
  | whenClause (part : WhenClause)
  | orderBy (part : OrderBy)
  | orderingItem (part : OrderingItem)
  | limit (part : Limit)
  | window (part : Window)
  | namedWindow (part : NamedWindow)
  | frame (part : Frame)
  | typeName (part : TypeName)
  | assignment (part : Assignment)
  | upsert (part : Upsert)
  | conflictTarget (part : ConflictTarget)
  | returning (part : Returning)
  | columnDefinition (part : ColumnDefinition)
  | columnConstraint (part : ColumnConstraint)
  | tableConstraint (part : TableConstraint)
  | foreignKey (part : ForeignKey)
  | indexedColumn (part : IndexedColumn)
  | rowClass (part : RowClass)
  | driftFile (part : DriftFile)
  | imported (part : Import)
  | declared (part : DeclaredStatement)
  | statementParameter (part : StatementParameter)

/-! ## Statements as nodes -/

/-- The node of a statement that reads or changes rows. -/
def DataStatement.node : DataStatement → Node
  | .select statement => .query statement
  | .insert statement => .insert statement
  | .update statement => .update statement
  | .delete statement => .delete statement

/-- The node of a statement. -/
def Statement.node : Statement → Node
  | .data statement => statement.node
  | .createTable statement => .createTable statement
  | .createVirtualTable statement => .createVirtualTable statement
  | .createView statement => .createView statement
  | .createTrigger statement => .createTrigger statement
  | .createIndex statement => .createIndex statement

/-- The node of a member of a compound query. -/
def QueryCore.node : QueryCore → Node
  | .select clause => .selectClause clause
  | .values clause => .valuesClause clause

/-- The node of an entry of a drift file. -/
def DriftEntry.node : DriftEntry → Node
  | .imported entry => .imported entry
  | .declared entry => .declared entry
  | .onCreate statement _ => statement.node
  | .plain statement => statement.node

namespace Node

/-- Where a node is written. -/
def span : Node → Span
  | .expr part => part.span
  | .query part => part.span
  | .insert part => part.span
  | .update part => part.span
  | .delete part => part.span
  | .createTable part => part.span
  | .createVirtualTable part => part.span
  | .createView part => part.span
  | .createTrigger part => part.span
  | .createIndex part => part.span
  | .withClause part => part.span
  | .commonTable part => part.span
  | .selectClause part => part.span
  | .valuesClause part => part.span
  | .compoundPart part => part.span
  | .resultColumn part => part.span
  | .tableRef part => part.span
  | .join part => part.span
  | .whenClause part => part.span
  | .orderBy part => part.span
  | .orderingItem part => part.span
  | .limit part => part.span
  | .window part => part.span
  | .namedWindow part => part.span
  | .frame part => part.span
  | .typeName part => part.span
  | .assignment part => part.span
  | .upsert part => part.span
  | .conflictTarget part => part.span
  | .returning part => part.span
  | .columnDefinition part => part.span
  | .columnConstraint part => part.span
  | .tableConstraint part => part.span
  | .foreignKey part => part.span
  | .indexedColumn part => part.span
  | .rowClass part => part.span
  | .driftFile part => part.span
  | .imported part => part.span
  | .declared part => part.span
  | .statementParameter part => part.span

/-! ## Children -/

/-- The nodes of a list of parts. -/
def each {α : Type} (node : α → Node) (parts : List α) : List Node :=
  parts.map node

/-- The node of a part that may be missing. -/
def maybe {α : Type} (node : α → Node) (part : Option α) : List Node :=
  part.toList.map node

/-- The nodes directly below what membership is tested in. -/
def ofInSource : InSource → List Node
  | .list items => each expr items
  | .subquery rows => [.query rows]
  | .table _ _ _ => []
  | .variable which => [.expr which]

/-- The nodes directly below the window that a function is computed over. -/
def ofOver : Over → List Node
  | .window definition => [.window definition]
  | .named _ _ => []

/-- The nodes directly below an expression. -/
def ofExpr : Expr → List Node
  | .literal _ _ | .reference _ _ _ _ | .variable _ _ | .placeholder _ _ => []
  | .unary _ operand _ => [.expr operand]
  | .binary left _ right _ => [.expr left, .expr right]
  | .collate operand _ _ | .isNull operand _ _ | .parentheses operand _ => [.expr operand]
  | .like operand _ pattern escape _ _ => .expr operand :: .expr pattern :: maybe expr escape
  | .isIn operand source _ _ => .expr operand :: ofInSource source
  | .between operand low high _ _ => [.expr operand, .expr low, .expr high]
  | .cases operand branches otherwise _ =>
    maybe expr operand ++ each whenClause branches ++ maybe expr otherwise
  | .cast operand type _ => [.expr operand, .typeName type]
  | .existsRow rows _ _ | .subquery rows _ => [.query rows]
  | .tuple items _ => each expr items
  | .call _ parameters _ => each expr parameters.arguments
  | .aggregate _ parameters order filter _ =>
    each expr parameters.arguments ++ maybe orderBy order ++ maybe expr filter
  | .windowCall _ parameters filter place _ =>
    each expr parameters.arguments ++ maybe expr filter ++ ofOver place
  | .raise _ message _ => maybe expr message

/-- The nodes directly below a table reference. -/
def ofTableRef : TableRef → List Node
  | .table _ _ _ _ _ => []
  | .subquery rows _ _ => [.query rows]
  | .function _ _ arguments _ _ => each expr arguments
  | .parenthesized inner _ => [.tableRef inner]
  | .join left right _ => [.tableRef left, .join right]

/-- The nodes directly below what the rows of a join have in common. -/
def ofJoinConstraint : JoinConstraint → List Node
  | .condition condition => [.expr condition]
  | .columns _ => []

/-- The nodes directly below a result column. -/
def ofResultColumn : ResultColumn → List Node
  | .star _ | .tableStar _ _ | .nestedStar _ _ => []
  | .expression column _ _ _ => [.expr column]
  | .nestedQuery rows _ _ => [.query rows]

/-- The nodes directly below an item of a sorting clause. -/
def ofOrderingItem : OrderingItem → List Node
  | .term sorting => [.expr sorting.expr]
  | .placeholder _ _ => []

/-- The nodes directly below a limit. -/
def ofLimitKind : LimitKind → List Node
  | .expressions count offset => .expr count :: maybe expr offset
  | .placeholder _ => []

/-- The nodes directly below the source of an insertion. -/
def ofInsertSource : InsertSource → List Node
  | .values clause => [.valuesClause clause]
  | .query rows => [.query rows]
  | .defaultValues _ | .placeholder _ _ => []

/-- The nodes directly below what is done with a row that conflicts. -/
def ofUpsertAction : UpsertAction → List Node
  | .nothing => []
  | .update assignments filter => each assignment assignments ++ maybe expr filter

/-- The nodes directly below what a constraint of a column demands. -/
def ofColumnConstraintKind : ColumnConstraintKind → List Node
  | .check condition => [.expr condition]
  | .default value => [.expr value]
  | .generated value _ _ => [.expr value]
  | .foreignKey key => [.foreignKey key]
  | .primaryKey _ _ _ | .notNull _ | .null | .unique _ | .collate _ | .mappedBy _ | .jsonKey _
  | .dartName _ => []

/-- The nodes directly below what a constraint of a table demands. -/
def ofTableConstraintKind : TableConstraintKind → List Node
  | .primaryKey columns _ | .unique columns _ => each indexedColumn columns
  | .check condition => [.expr condition]
  | .foreignKey _ key => [.foreignKey key]

/-- The nodes directly below a hint about a variable. -/
def ofStatementParameter : StatementParameter → List Node
  | .variableType _ _ type _ _ => maybe typeName type
  | .defaultValue _ value _ => [.expr value]

/-- The nodes of the definition of a table. -/
def ofTableDefinition (definition : TableDefinition) : List Node :=
  each columnDefinition definition.columns ++ each tableConstraint definition.constraints ++
    maybe rowClass definition.rowClass

/-- The nodes directly below a node. -/
def children : Node → List Node
  | .expr part => ofExpr part
  | .query part =>
    maybe withClause part.commonTables ++ part.core.node :: each compoundPart part.compounds ++
      maybe orderBy part.order ++ maybe limit part.limit
  | .insert part =>
    maybe withClause part.commonTables ++ ofInsertSource part.source ++
      each upsert part.upserts ++ maybe returning part.returning
  | .update part =>
    maybe withClause part.commonTables ++ each assignment part.assignments ++
      maybe tableRef part.source ++ maybe expr part.filter ++ maybe returning part.returning
  | .delete part =>
    maybe withClause part.commonTables ++ maybe expr part.filter ++ maybe returning part.returning
  | .createTable part =>
    each columnDefinition part.columns ++ each tableConstraint part.constraints ++
      maybe query part.asSelect ++ maybe rowClass part.rowClass
  | .createVirtualTable _ => []
  | .createView part => maybe rowClass part.rowClass ++ [.query part.query]
  | .createTrigger part => maybe expr part.condition ++ each Statement.node part.body
  | .createIndex part => each indexedColumn part.columns ++ maybe expr part.filter
  | .withClause part => each commonTable part.tables
  | .commonTable part => [.query part.query]
  | .selectClause part =>
    each resultColumn part.columns ++ maybe tableRef part.source ++ maybe expr part.filter ++
      each expr part.groupBy ++ maybe expr part.having ++ each namedWindow part.windows
  | .valuesClause part => part.rows.flatMap (each expr)
  | .compoundPart part => [part.core.node]
  | .resultColumn part => ofResultColumn part
  | .tableRef part => ofTableRef part
  | .join part => .tableRef part.table :: part.constraint.toList.flatMap ofJoinConstraint
  | .whenClause part => [.expr part.condition, .expr part.result]
  | .orderBy part => each orderingItem part.items
  | .orderingItem part => ofOrderingItem part
  | .limit part => ofLimitKind part.kind
  | .window part =>
    each expr part.partition ++ maybe orderBy part.order ++ maybe frame part.frame
  | .namedWindow part => [.window part.definition]
  | .frame part => maybe expr part.start.offset? ++ maybe expr part.stop.offset?
  | .typeName _ => []
  | .assignment part => [.expr part.value]
  | .upsert part => maybe conflictTarget part.target ++ ofUpsertAction part.action
  | .conflictTarget part => each indexedColumn part.columns ++ maybe expr part.filter
  | .returning part => each resultColumn part.columns
  | .columnDefinition part => maybe typeName part.type ++ each columnConstraint part.constraints
  | .columnConstraint part => ofColumnConstraintKind part.kind
  | .tableConstraint part => ofTableConstraintKind part.kind
  | .foreignKey _ => []
  | .indexedColumn part => [.expr part.expr]
  | .rowClass _ => []
  | .driftFile part => each DriftEntry.node part.entries
  | .imported _ => []
  | .declared part => each statementParameter part.parameters ++ [part.statement.node]
  | .statementParameter part => ofStatementParameter part

/-- A table without a query has the nodes of its definition below it. -/
theorem children_createTable_of_asSelect {table : CreateTable} (own : table.asSelect = none) :
    (createTable table).children = ofTableDefinition table.toTableDefinition := by
  simp [children, ofTableDefinition, own, maybe]

end Node

end SqlTree
