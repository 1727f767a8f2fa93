import Mathlib.Tactic.Lemma
import SqlTree.Tree.DriftFile

set_option autoImplicit false

/-!
# Trees without their places

Two trees are equal in every field except spans when they are the same tree once every span is
replaced by the one that belongs to no source text.

## Main definitions

* `SqlTree.Expr.unplaced`, `SqlTree.Query.unplaced` — expressions and queries without spans.
* `SqlTree.Statement.unplaced`, `SqlTree.DriftFile.unplaced` — statements and files without spans.

## Main results

* `SqlTree.Expr.listUnplaced_eq_map` and its siblings — the helpers for lists and optional parts are
  maps.
-/

namespace SqlTree

/-- A type without its span. -/
def TypeName.unplaced (type : TypeName) : TypeName :=
  { type with span := .none }

/-! ## Expressions and queries -/

mutual

/-- An expression without its spans. -/
def Expr.unplaced : Expr → Expr
  | .literal value _ => .literal value .none
  | .reference schema table column _ => .reference schema table column .none
  | .variable which _ => .variable which .none
  | .placeholder name _ => .placeholder name .none
  | .unary op operand _ => .unary op operand.unplaced .none
  | .binary left op right _ => .binary left.unplaced op right.unplaced .none
  | .collate operand collation _ => .collate operand.unplaced collation .none
  | .isNull operand negated _ => .isNull operand.unplaced negated .none
  | .like operand op pattern escape negated _ =>
    .like operand.unplaced op pattern.unplaced (Expr.optionUnplaced escape) negated .none
  | .isIn operand source negated _ => .isIn operand.unplaced source.unplaced negated .none
  | .between operand low high negated _ =>
    .between operand.unplaced low.unplaced high.unplaced negated .none
  | .cases operand branches otherwise _ =>
    .cases (Expr.optionUnplaced operand) (WhenClause.listUnplaced branches)
      (Expr.optionUnplaced otherwise) .none
  | .cast operand type _ => .cast operand.unplaced type.unplaced .none
  | .existsRow query negated _ => .existsRow query.unplaced negated .none
  | .subquery query _ => .subquery query.unplaced .none
  | .tuple items _ => .tuple (Expr.listUnplaced items) .none
  | .parentheses inner _ => .parentheses inner.unplaced .none
  | .call name parameters _ => .call name parameters.unplaced .none
  | .aggregate name parameters order filter _ =>
    .aggregate name parameters.unplaced (OrderBy.optionUnplaced order)
      (Expr.optionUnplaced filter) .none
  | .windowCall name parameters filter window _ =>
    .windowCall name parameters.unplaced (Expr.optionUnplaced filter) window.unplaced .none
  | .raise action message _ => .raise action (Expr.optionUnplaced message) .none

/-- Expressions without their spans. -/
def Expr.listUnplaced : List Expr → List Expr
  | [] => []
  | expr :: rest => expr.unplaced :: Expr.listUnplaced rest

/-- An optional expression without its spans. -/
def Expr.optionUnplaced : Option Expr → Option Expr
  | none => none
  | some expr => some expr.unplaced

/-- What membership is tested in, without spans. -/
def InSource.unplaced : InSource → InSource
  | .list items => .list (Expr.listUnplaced items)
  | .subquery query => .subquery query.unplaced
  | .table schema name _ => .table schema name .none
  | .variable which => .variable which.unplaced

/-- A branch of a choice without its spans. -/
def WhenClause.unplaced : WhenClause → WhenClause
  | ⟨condition, result, _⟩ => ⟨condition.unplaced, result.unplaced, .none⟩

/-- Branches of a choice without their spans. -/
def WhenClause.listUnplaced : List WhenClause → List WhenClause
  | [] => []
  | branch :: rest => branch.unplaced :: WhenClause.listUnplaced rest

/-- What a function is called with, without spans. -/
def Parameters.unplaced : Parameters → Parameters
  | .none => .none
  | .star => .star
  | .list distinct arguments => .list distinct (Expr.listUnplaced arguments)

/-- The window of a function without its spans. -/
def Over.unplaced : Over → Over
  | .window definition => .window definition.unplaced
  | .named name _ => .named name .none

/-- A sorting term without its spans. -/
def OrderingTerm.unplaced : OrderingTerm → OrderingTerm
  | ⟨expr, direction, nulls, _⟩ => ⟨expr.unplaced, direction, nulls, .none⟩

/-- An item of a sorting clause without its spans. -/
def OrderingItem.unplaced : OrderingItem → OrderingItem
  | .term sorting => .term sorting.unplaced
  | .placeholder name _ => .placeholder name .none

/-- Items of a sorting clause without their spans. -/
def OrderingItem.listUnplaced : List OrderingItem → List OrderingItem
  | [] => []
  | item :: rest => item.unplaced :: OrderingItem.listUnplaced rest

/-- A sorting clause without its spans. -/
def OrderBy.unplaced : OrderBy → OrderBy
  | ⟨items, _⟩ => ⟨OrderingItem.listUnplaced items, .none⟩

/-- An optional sorting clause without its spans. -/
def OrderBy.optionUnplaced : Option OrderBy → Option OrderBy
  | none => none
  | some order => some order.unplaced

/-- An end of a frame without its spans. -/
def FrameBound.unplaced : FrameBound → FrameBound
  | .unboundedPreceding => .unboundedPreceding
  | .preceding offset => .preceding offset.unplaced
  | .currentRow => .currentRow
  | .following offset => .following offset.unplaced
  | .unboundedFollowing => .unboundedFollowing

/-- A frame without its spans. -/
def Frame.unplaced : Frame → Frame
  | ⟨unit, start, stop, exclude, _⟩ => ⟨unit, start.unplaced, stop.unplaced, exclude, .none⟩

/-- An optional frame without its spans. -/
def Frame.optionUnplaced : Option Frame → Option Frame
  | none => none
  | some frame => some frame.unplaced

/-- The definition of a window without its spans. -/
def Window.unplaced : Window → Window
  | ⟨base, partition, order, frame, _⟩ =>
    ⟨base, Expr.listUnplaced partition, OrderBy.optionUnplaced order, Frame.optionUnplaced frame,
      .none⟩

/-- A window with a name, without its spans. -/
def NamedWindow.unplaced : NamedWindow → NamedWindow
  | ⟨name, definition, _⟩ => ⟨name, definition.unplaced, .none⟩

/-- Windows with names, without their spans. -/
def NamedWindow.listUnplaced : List NamedWindow → List NamedWindow
  | [] => []
  | window :: rest => window.unplaced :: NamedWindow.listUnplaced rest

/-- What joined rows have in common, without spans. -/
def JoinConstraint.unplaced : JoinConstraint → JoinConstraint
  | .condition expr => .condition expr.unplaced
  | .columns names => .columns names

/-- What joined rows have in common, if it is stated, without spans. -/
def JoinConstraint.optionUnplaced : Option JoinConstraint → Option JoinConstraint
  | none => none
  | some constraint => some constraint.unplaced

/-- A join without its spans. -/
def Join.unplaced : Join → Join
  | ⟨natural, kind, table, constraint, _⟩ =>
    ⟨natural, kind, table.unplaced, JoinConstraint.optionUnplaced constraint, .none⟩

/-- A table reference without its spans. -/
def TableRef.unplaced : TableRef → TableRef
  | .table schema name aliasName indexing _ => .table schema name aliasName indexing .none
  | .subquery query aliasName _ => .subquery query.unplaced aliasName .none
  | .function schema name arguments aliasName _ =>
    .function schema name (Expr.listUnplaced arguments) aliasName .none
  | .parenthesized inner _ => .parenthesized inner.unplaced .none
  | .join left right _ => .join left.unplaced right.unplaced .none

/-- An optional table reference without its spans. -/
def TableRef.optionUnplaced : Option TableRef → Option TableRef
  | none => none
  | some table => some table.unplaced

/-- A result column without its spans. -/
def ResultColumn.unplaced : ResultColumn → ResultColumn
  | .star _ => .star .none
  | .tableStar table _ => .tableStar table .none
  | .nestedStar table _ => .nestedStar table .none
  | .expression expr aliasName mappedBy _ => .expression expr.unplaced aliasName mappedBy .none
  | .nestedQuery query aliasName _ => .nestedQuery query.unplaced aliasName .none

/-- Result columns without their spans. -/
def ResultColumn.listUnplaced : List ResultColumn → List ResultColumn
  | [] => []
  | column :: rest => column.unplaced :: ResultColumn.listUnplaced rest

/-- A common table without its spans. -/
def CommonTable.unplaced : CommonTable → CommonTable
  | ⟨name, columns, materialized, query, _⟩ =>
    ⟨name, columns, materialized, query.unplaced, .none⟩

/-- Common tables without their spans. -/
def CommonTable.listUnplaced : List CommonTable → List CommonTable
  | [] => []
  | table :: rest => table.unplaced :: CommonTable.listUnplaced rest

/-- The common tables of a statement without their spans. -/
def WithClause.unplaced : WithClause → WithClause
  | ⟨recursive, tables, _⟩ => ⟨recursive, CommonTable.listUnplaced tables, .none⟩

/-- The common tables of a statement, if there are any, without their spans. -/
def WithClause.optionUnplaced : Option WithClause → Option WithClause
  | none => none
  | some clause => some clause.unplaced

/-- A query that computes columns, without its spans. -/
def SelectClause.unplaced : SelectClause → SelectClause
  | ⟨distinct, columns, source, filter, groupBy, having, windows, _⟩ =>
    ⟨distinct, ResultColumn.listUnplaced columns, TableRef.optionUnplaced source,
      Expr.optionUnplaced filter, Expr.listUnplaced groupBy, Expr.optionUnplaced having,
      NamedWindow.listUnplaced windows, .none⟩

/-- Rows of values without their spans. -/
def ValuesClause.rowsUnplaced : List (List Expr) → List (List Expr)
  | [] => []
  | row :: rest => Expr.listUnplaced row :: ValuesClause.rowsUnplaced rest

/-- A query that lists its rows, without its spans. -/
def ValuesClause.unplaced : ValuesClause → ValuesClause
  | ⟨rows, _⟩ => ⟨ValuesClause.rowsUnplaced rows, .none⟩

/-- A member of a compound query without its spans. -/
def QueryCore.unplaced : QueryCore → QueryCore
  | .select clause => .select clause.unplaced
  | .values clause => .values clause.unplaced

/-- A further member of a compound query without its spans. -/
def CompoundPart.unplaced : CompoundPart → CompoundPart
  | ⟨operator, core, _⟩ => ⟨operator, core.unplaced, .none⟩

/-- Further members of a compound query without their spans. -/
def CompoundPart.listUnplaced : List CompoundPart → List CompoundPart
  | [] => []
  | part :: rest => part.unplaced :: CompoundPart.listUnplaced rest

/-- The kind of a limit without its spans. -/
def LimitKind.unplaced : LimitKind → LimitKind
  | .expressions count offset => .expressions count.unplaced (Expr.optionUnplaced offset)
  | .placeholder name => .placeholder name

/-- A limit without its spans. -/
def Limit.unplaced : Limit → Limit
  | ⟨kind, _⟩ => ⟨kind.unplaced, .none⟩

/-- An optional limit without its spans. -/
def Limit.optionUnplaced : Option Limit → Option Limit
  | none => none
  | some limit => some limit.unplaced

/-- A query without its spans. -/
def Query.unplaced : Query → Query
  | ⟨commonTables, core, compounds, order, limit, _⟩ =>
    ⟨WithClause.optionUnplaced commonTables, core.unplaced, CompoundPart.listUnplaced compounds,
      OrderBy.optionUnplaced order, Limit.optionUnplaced limit, .none⟩

end

/-! ## Lists and optional parts -/

/-- Several expressions lose their spans one by one. -/
@[simp] lemma Expr.listUnplaced_eq_map (list : List Expr) :
    Expr.listUnplaced list = list.map Expr.unplaced := by
  induction list <;> simp_all [Expr.listUnplaced]

/-- The branches of a choice lose their spans one by one. -/
@[simp] lemma WhenClause.listUnplaced_eq_map (list : List WhenClause) :
    WhenClause.listUnplaced list = list.map WhenClause.unplaced := by
  induction list <;> simp_all [WhenClause.listUnplaced]

/-- The items of a sorting clause lose their spans one by one. -/
@[simp] lemma OrderingItem.listUnplaced_eq_map (list : List OrderingItem) :
    OrderingItem.listUnplaced list = list.map OrderingItem.unplaced := by
  induction list <;> simp_all [OrderingItem.listUnplaced]

/-- Windows with names lose their spans one by one. -/
@[simp] lemma NamedWindow.listUnplaced_eq_map (list : List NamedWindow) :
    NamedWindow.listUnplaced list = list.map NamedWindow.unplaced := by
  induction list <;> simp_all [NamedWindow.listUnplaced]

/-- Result columns lose their spans one by one. -/
@[simp] lemma ResultColumn.listUnplaced_eq_map (list : List ResultColumn) :
    ResultColumn.listUnplaced list = list.map ResultColumn.unplaced := by
  induction list <;> simp_all [ResultColumn.listUnplaced]

/-- Common tables lose their spans one by one. -/
@[simp] lemma CommonTable.listUnplaced_eq_map (list : List CommonTable) :
    CommonTable.listUnplaced list = list.map CommonTable.unplaced := by
  induction list <;> simp_all [CommonTable.listUnplaced]

/-- The further members of a compound query lose their spans one by one. -/
@[simp] lemma CompoundPart.listUnplaced_eq_map (list : List CompoundPart) :
    CompoundPart.listUnplaced list = list.map CompoundPart.unplaced := by
  induction list <;> simp_all [CompoundPart.listUnplaced]

/-- The values of rows lose their spans one by one, and the rows stay apart. -/
@[simp] lemma ValuesClause.rowsUnplaced_eq_map (rows : List (List Expr)) :
    ValuesClause.rowsUnplaced rows = rows.map (List.map Expr.unplaced) := by
  induction rows <;> simp_all [ValuesClause.rowsUnplaced]

/-- An expression that may be missing loses its spans if it is there. -/
@[simp] lemma Expr.optionUnplaced_eq_map (part : Option Expr) :
    Expr.optionUnplaced part = part.map Expr.unplaced := by
  cases part <;> simp [Expr.optionUnplaced]

/-- A sorting clause that may be missing loses its spans if it is there. -/
@[simp] lemma OrderBy.optionUnplaced_eq_map (part : Option OrderBy) :
    OrderBy.optionUnplaced part = part.map OrderBy.unplaced := by
  cases part <;> simp [OrderBy.optionUnplaced]

/-- A frame that may be missing loses its spans if it is there. -/
@[simp] lemma Frame.optionUnplaced_eq_map (part : Option Frame) :
    Frame.optionUnplaced part = part.map Frame.unplaced := by
  cases part <;> simp [Frame.optionUnplaced]

/-- What joined rows may have in common loses its spans if it is stated. -/
@[simp] lemma JoinConstraint.optionUnplaced_eq_map (part : Option JoinConstraint) :
    JoinConstraint.optionUnplaced part = part.map JoinConstraint.unplaced := by
  cases part <;> simp [JoinConstraint.optionUnplaced]

/-- A table reference that may be missing loses its spans if it is there. -/
@[simp] lemma TableRef.optionUnplaced_eq_map (part : Option TableRef) :
    TableRef.optionUnplaced part = part.map TableRef.unplaced := by
  cases part <;> simp [TableRef.optionUnplaced]

/-- The common tables of a statement lose their spans if there are any. -/
@[simp] lemma WithClause.optionUnplaced_eq_map (part : Option WithClause) :
    WithClause.optionUnplaced part = part.map WithClause.unplaced := by
  cases part <;> simp [WithClause.optionUnplaced]

/-- A limit that may be missing loses its spans if it is there. -/
@[simp] lemma Limit.optionUnplaced_eq_map (part : Option Limit) :
    Limit.optionUnplaced part = part.map Limit.unplaced := by
  cases part <;> simp [Limit.optionUnplaced]

/-! ## Statements that change rows -/

/-- A column of an index without its spans. -/
def IndexedColumn.unplaced (column : IndexedColumn) : IndexedColumn :=
  ⟨column.expr.unplaced, column.direction, .none⟩

/-- New values for columns without their spans. -/
def Assignment.unplaced (assignment : Assignment) : Assignment :=
  ⟨assignment.columns, assignment.value.unplaced, .none⟩

/-- The source of an insertion without its spans. -/
def InsertSource.unplaced : InsertSource → InsertSource
  | .values clause => .values clause.unplaced
  | .query rows => .query rows.unplaced
  | .defaultValues _ => .defaultValues .none
  | .placeholder name _ => .placeholder name .none

/-- The target of a conflict without its spans. -/
def ConflictTarget.unplaced (target : ConflictTarget) : ConflictTarget :=
  ⟨target.columns.map IndexedColumn.unplaced, target.filter.map Expr.unplaced, .none⟩

/-- What is done with a row that conflicts, without spans. -/
def UpsertAction.unplaced : UpsertAction → UpsertAction
  | .nothing => .nothing
  | .update assignments filter =>
    .update (assignments.map Assignment.unplaced) (filter.map Expr.unplaced)

/-- A conflict clause without its spans. -/
def Upsert.unplaced (upsert : Upsert) : Upsert :=
  ⟨upsert.target.map ConflictTarget.unplaced, upsert.action.unplaced, .none⟩

/-- A returning clause without its spans. -/
def Returning.unplaced (returning : Returning) : Returning :=
  ⟨returning.columns.map ResultColumn.unplaced, .none⟩

/-- An insertion without its spans. -/
def Insert.unplaced (insert : Insert) : Insert :=
  { insert with
    commonTables := insert.commonTables.map WithClause.unplaced
    source := insert.source.unplaced
    upserts := insert.upserts.map Upsert.unplaced
    returning := insert.returning.map Returning.unplaced
    span := .none }

/-- An update without its spans. -/
def Update.unplaced (update : Update) : Update :=
  { update with
    commonTables := update.commonTables.map WithClause.unplaced
    assignments := update.assignments.map Assignment.unplaced
    source := update.source.map TableRef.unplaced
    filter := update.filter.map Expr.unplaced
    returning := update.returning.map Returning.unplaced
    span := .none }

/-- A deletion without its spans. -/
def Delete.unplaced (delete : Delete) : Delete :=
  { delete with
    commonTables := delete.commonTables.map WithClause.unplaced
    filter := delete.filter.map Expr.unplaced
    returning := delete.returning.map Returning.unplaced
    span := .none }

/-- A statement that reads or changes rows without its spans. -/
def DataStatement.unplaced : DataStatement → DataStatement
  | .select statement => .select statement.unplaced
  | .insert statement => .insert statement.unplaced
  | .update statement => .update statement.unplaced
  | .delete statement => .delete statement.unplaced

/-! ## Statements that create things -/

/-- What a foreign key refers to, without its span. -/
def ForeignKey.unplaced (key : ForeignKey) : ForeignKey :=
  { key with span := .none }

/-- What a constraint of a column demands, without spans. -/
def ColumnConstraintKind.unplaced : ColumnConstraintKind → ColumnConstraintKind
  | .check expr => .check expr.unplaced
  | .default expr => .default expr.unplaced
  | .foreignKey key => .foreignKey key.unplaced
  | .generated expr storage always => .generated expr.unplaced storage always
  | kind => kind

/-- A constraint of a column without its spans. -/
def ColumnConstraint.unplaced (constraint : ColumnConstraint) : ColumnConstraint :=
  ⟨constraint.name, constraint.kind.unplaced, .none⟩

/-- The definition of a column without its spans. -/
def ColumnDefinition.unplaced (column : ColumnDefinition) : ColumnDefinition :=
  ⟨column.name, column.type.map TypeName.unplaced,
    column.constraints.map ColumnConstraint.unplaced, .none⟩

/-- What a constraint of a table demands, without spans. -/
def TableConstraintKind.unplaced : TableConstraintKind → TableConstraintKind
  | .primaryKey columns conflict => .primaryKey (columns.map IndexedColumn.unplaced) conflict
  | .unique columns conflict => .unique (columns.map IndexedColumn.unplaced) conflict
  | .check expr => .check expr.unplaced
  | .foreignKey columns key => .foreignKey columns key.unplaced

/-- A constraint of a table without its spans. -/
def TableConstraint.unplaced (constraint : TableConstraint) : TableConstraint :=
  ⟨constraint.name, constraint.kind.unplaced, .none⟩

/-- The Dart class of rows without its span. -/
def RowClass.unplaced (rowClass : RowClass) : RowClass :=
  { rowClass with span := .none }

/-- The definition of a table without its spans. -/
def TableDefinition.unplaced (definition : TableDefinition) : TableDefinition :=
  { definition with
    columns := definition.columns.map ColumnDefinition.unplaced
    constraints := definition.constraints.map TableConstraint.unplaced
    rowClass := definition.rowClass.map RowClass.unplaced }

/-- The creation of a table without its spans. -/
def CreateTable.unplaced (table : CreateTable) : CreateTable :=
  { table with
    toTableDefinition := table.toTableDefinition.unplaced
    asSelect := table.asSelect.map Query.unplaced
    span := .none }

/-- The creation of a virtual table without its span. -/
def CreateVirtualTable.unplaced (table : CreateVirtualTable) : CreateVirtualTable :=
  { table with span := .none }

/-- The creation of a view without its spans. -/
def CreateView.unplaced (view : CreateView) : CreateView :=
  { view with
    rowClass := view.rowClass.map RowClass.unplaced
    query := view.query.unplaced
    span := .none }

/-- The creation of an index without its spans. -/
def CreateIndex.unplaced (index : CreateIndex) : CreateIndex :=
  { index with
    columns := index.columns.map IndexedColumn.unplaced
    filter := index.filter.map Expr.unplaced
    span := .none }

mutual

/-- The creation of a trigger without its spans. -/
def CreateTrigger.unplaced : CreateTrigger → CreateTrigger
  | ⟨temporary, ifNotExists, schema, name, timing, event, table, forEachRow, condition, body, _⟩ =>
    ⟨temporary, ifNotExists, schema, name, timing, event, table, forEachRow,
      condition.map Expr.unplaced, Statement.listUnplaced body, .none⟩

/-- A statement without its spans. -/
def Statement.unplaced : Statement → Statement
  | .data statement => .data statement.unplaced
  | .createTable statement => .createTable statement.unplaced
  | .createVirtualTable statement => .createVirtualTable statement.unplaced
  | .createView statement => .createView statement.unplaced
  | .createTrigger statement => .createTrigger statement.unplaced
  | .createIndex statement => .createIndex statement.unplaced

/-- Several statements without their spans. -/
def Statement.listUnplaced : List Statement → List Statement
  | [] => []
  | statement :: rest => statement.unplaced :: Statement.listUnplaced rest

end

/-- The statements of a trigger lose their spans one by one. -/
@[simp] lemma Statement.listUnplaced_eq_map (list : List Statement) :
    Statement.listUnplaced list = list.map Statement.unplaced := by
  induction list <;> simp_all [Statement.listUnplaced]

/-! ## Drift files -/

/-- An import without its span. -/
def Import.unplaced (entry : Import) : Import :=
  { entry with span := .none }

/-- A hint about a variable without its spans. -/
def StatementParameter.unplaced : StatementParameter → StatementParameter
  | .variableType which required type orNull _ =>
    .variableType which required (type.map TypeName.unplaced) orNull .none
  | .defaultValue name value _ => .defaultValue name value.unplaced .none

/-- A statement with a name without its spans. -/
def DeclaredStatement.unplaced (declared : DeclaredStatement) : DeclaredStatement :=
  { declared with
    parameters := declared.parameters.map StatementParameter.unplaced
    statement := declared.statement.unplaced
    span := .none }

/-- An entry of a drift file without its spans. -/
def DriftEntry.unplaced : DriftEntry → DriftEntry
  | .imported entry => .imported entry.unplaced
  | .declared entry => .declared entry.unplaced
  | .onCreate statement _ => .onCreate statement.unplaced .none
  | .plain statement => .plain statement.unplaced

/-- A drift file without its spans. -/
def DriftFile.unplaced (file : DriftFile) : DriftFile :=
  ⟨file.entries.map DriftEntry.unplaced, .none⟩

end SqlTree
