import Mathlib.Tactic.Lemma
import SqlTree.Tree.Node

set_option autoImplicit false

/-!
# What is stored in a tree

The nodes that a tree stores, at any depth, by recursion on the trees: a part that is a node of its
own comes first, then what its fields store, field by field. Parts that are no nodes of their own,
such as the parameters of a call, only store what their fields do.

## Main definitions

* `SqlTree.Expr.stored`, `SqlTree.Query.stored` — the nodes stored in expressions and queries.
* `SqlTree.Statement.stored`, `SqlTree.DriftFile.stored` — the nodes stored in statements and files.
* `SqlTree.Node.stored` — the nodes stored in any node.
-/

namespace SqlTree

/-- A type is a leaf. -/
def TypeName.stored (type : TypeName) : List Node :=
  [.typeName type]

/-! ## Expressions and queries -/

mutual

/-- The nodes stored in an expression. -/
@[simp] def Expr.stored : Expr → List Node
  | .literal value span => [.expr (.literal value span)]
  | .reference schema table column span => [.expr (.reference schema table column span)]
  | .variable which span => [.expr (.variable which span)]
  | .placeholder name span => [.expr (.placeholder name span)]
  | e@(.unary _ operand _) => .expr e :: operand.stored
  | e@(.binary left _ right _) => .expr e :: (left.stored ++ right.stored)
  | e@(.collate operand _ _) => .expr e :: operand.stored
  | e@(.isNull operand _ _) => .expr e :: operand.stored
  | e@(.like operand _ pattern escape _ _) =>
    .expr e :: (operand.stored ++ pattern.stored ++ Expr.optionStored escape)
  | e@(.isIn operand source _ _) => .expr e :: (operand.stored ++ source.stored)
  | e@(.between operand low high _ _) =>
    .expr e :: (operand.stored ++ low.stored ++ high.stored)
  | e@(.cases operand branches otherwise _) =>
    .expr e :: (Expr.optionStored operand ++ WhenClause.listStored branches ++
      Expr.optionStored otherwise)
  | e@(.cast operand type _) => .expr e :: (operand.stored ++ type.stored)
  | e@(.existsRow query _ _) => .expr e :: query.stored
  | e@(.subquery query _) => .expr e :: query.stored
  | e@(.tuple items _) => .expr e :: Expr.listStored items
  | e@(.parentheses inner _) => .expr e :: inner.stored
  | e@(.call _ parameters _) => .expr e :: parameters.stored
  | e@(.aggregate _ parameters order filter _) =>
    .expr e :: (parameters.stored ++ OrderBy.optionStored order ++ Expr.optionStored filter)
  | e@(.windowCall _ parameters filter window _) =>
    .expr e :: (parameters.stored ++ Expr.optionStored filter ++ window.stored)
  | e@(.raise _ message _) => .expr e :: Expr.optionStored message

/-- The nodes stored in several expressions. -/
def Expr.listStored : List Expr → List Node
  | [] => []
  | expr :: rest => expr.stored ++ Expr.listStored rest

/-- The nodes stored in an expression that may be missing. -/
def Expr.optionStored : Option Expr → List Node
  | none => []
  | some expr => expr.stored

/-- The nodes stored in what membership is tested in. -/
@[simp] def InSource.stored : InSource → List Node
  | .list items => Expr.listStored items
  | .subquery query => query.stored
  | .table _ _ _ => []
  | .variable which => which.stored

/-- The nodes stored in a branch of a choice. -/
@[simp] def WhenClause.stored : WhenClause → List Node
  | branch@⟨condition, result, _⟩ => .whenClause branch :: (condition.stored ++ result.stored)

/-- The nodes stored in the branches of a choice. -/
def WhenClause.listStored : List WhenClause → List Node
  | [] => []
  | branch :: rest => branch.stored ++ WhenClause.listStored rest

/-- The nodes stored in what a function is called with. -/
@[simp] def Parameters.stored : Parameters → List Node
  | .none | .star => []
  | .list _ arguments => Expr.listStored arguments

/-- The nodes stored in the window of a function. -/
@[simp] def Over.stored : Over → List Node
  | .window definition => definition.stored
  | .named _ _ => []

/-- The nodes stored in a sorting term. -/
@[simp] def OrderingTerm.stored : OrderingTerm → List Node
  | ⟨expr, _, _, _⟩ => expr.stored

/-- The nodes stored in an item of a sorting clause. -/
@[simp] def OrderingItem.stored : OrderingItem → List Node
  | .term sorting => .orderingItem (.term sorting) :: sorting.stored
  | .placeholder name span => [.orderingItem (.placeholder name span)]

/-- The nodes stored in the items of a sorting clause. -/
def OrderingItem.listStored : List OrderingItem → List Node
  | [] => []
  | item :: rest => item.stored ++ OrderingItem.listStored rest

/-- The nodes stored in a sorting clause. -/
@[simp] def OrderBy.stored : OrderBy → List Node
  | order@⟨items, _⟩ => .orderBy order :: OrderingItem.listStored items

/-- The nodes stored in a sorting clause that may be missing. -/
def OrderBy.optionStored : Option OrderBy → List Node
  | none => []
  | some order => order.stored

/-- The nodes stored in an end of a frame. -/
@[simp] def FrameBound.stored : FrameBound → List Node
  | .unboundedPreceding | .currentRow | .unboundedFollowing => []
  | .preceding offset | .following offset => offset.stored

/-- The nodes stored in a frame. -/
@[simp] def Frame.stored : Frame → List Node
  | frame@⟨_, start, stop, _, _⟩ => .frame frame :: (start.stored ++ stop.stored)

/-- The nodes stored in a frame that may be missing. -/
def Frame.optionStored : Option Frame → List Node
  | none => []
  | some frame => frame.stored

/-- The nodes stored in the definition of a window. -/
@[simp] def Window.stored : Window → List Node
  | window@⟨_, partition, order, frame, _⟩ =>
    .window window :: (Expr.listStored partition ++ OrderBy.optionStored order ++
      Frame.optionStored frame)

/-- The nodes stored in a window with a name. -/
@[simp] def NamedWindow.stored : NamedWindow → List Node
  | window@⟨_, definition, _⟩ => .namedWindow window :: definition.stored

/-- The nodes stored in windows with names. -/
def NamedWindow.listStored : List NamedWindow → List Node
  | [] => []
  | window :: rest => window.stored ++ NamedWindow.listStored rest

/-- The nodes stored in what joined rows have in common. -/
@[simp] def JoinConstraint.stored : JoinConstraint → List Node
  | .condition expr => expr.stored
  | .columns _ => []

/-- The nodes stored in what joined rows may have in common. -/
def JoinConstraint.optionStored : Option JoinConstraint → List Node
  | none => []
  | some constraint => constraint.stored

/-- The nodes stored in a join. -/
@[simp] def Join.stored : Join → List Node
  | join@⟨_, _, table, constraint, _⟩ =>
    .join join :: (table.stored ++ JoinConstraint.optionStored constraint)

/-- The nodes stored in a table reference. -/
@[simp] def TableRef.stored : TableRef → List Node
  | .table schema name aliasName indexing span =>
    [.tableRef (.table schema name aliasName indexing span)]
  | t@(.subquery query _ _) => .tableRef t :: query.stored
  | t@(.function _ _ arguments _ _) => .tableRef t :: Expr.listStored arguments
  | t@(.parenthesized inner _) => .tableRef t :: inner.stored
  | t@(.join left right _) => .tableRef t :: (left.stored ++ right.stored)

/-- The nodes stored in a table reference that may be missing. -/
def TableRef.optionStored : Option TableRef → List Node
  | none => []
  | some table => table.stored

/-- The nodes stored in a result column. -/
@[simp] def ResultColumn.stored : ResultColumn → List Node
  | .star span => [.resultColumn (.star span)]
  | .tableStar table span => [.resultColumn (.tableStar table span)]
  | .nestedStar table span => [.resultColumn (.nestedStar table span)]
  | column@(.expression expr _ _ _) => .resultColumn column :: expr.stored
  | column@(.nestedQuery query _ _) => .resultColumn column :: query.stored

/-- The nodes stored in result columns. -/
def ResultColumn.listStored : List ResultColumn → List Node
  | [] => []
  | column :: rest => column.stored ++ ResultColumn.listStored rest

/-- The nodes stored in a common table. -/
@[simp] def CommonTable.stored : CommonTable → List Node
  | table@⟨_, _, _, query, _⟩ => .commonTable table :: query.stored

/-- The nodes stored in common tables. -/
def CommonTable.listStored : List CommonTable → List Node
  | [] => []
  | table :: rest => table.stored ++ CommonTable.listStored rest

/-- The nodes stored in the common tables of a statement. -/
@[simp] def WithClause.stored : WithClause → List Node
  | clause@⟨_, tables, _⟩ => .withClause clause :: CommonTable.listStored tables

/-- The nodes stored in the common tables of a statement that may have none. -/
def WithClause.optionStored : Option WithClause → List Node
  | none => []
  | some clause => clause.stored

/-- The nodes stored in a query that computes columns. -/
@[simp] def SelectClause.stored : SelectClause → List Node
  | clause@⟨_, columns, source, filter, groupBy, having, windows, _⟩ =>
    .selectClause clause :: (ResultColumn.listStored columns ++ TableRef.optionStored source ++
      Expr.optionStored filter ++ Expr.listStored groupBy ++ Expr.optionStored having ++
      NamedWindow.listStored windows)

/-- The nodes stored in rows of values. -/
def ValuesClause.rowsStored : List (List Expr) → List Node
  | [] => []
  | row :: rest => Expr.listStored row ++ ValuesClause.rowsStored rest

/-- The nodes stored in a query that lists its rows. -/
@[simp] def ValuesClause.stored : ValuesClause → List Node
  | clause@⟨rows, _⟩ => .valuesClause clause :: ValuesClause.rowsStored rows

/-- The nodes stored in a member of a compound query. -/
@[simp] def QueryCore.stored : QueryCore → List Node
  | .select clause => clause.stored
  | .values clause => clause.stored

/-- The nodes stored in a further member of a compound query. -/
@[simp] def CompoundPart.stored : CompoundPart → List Node
  | part@⟨_, core, _⟩ => .compoundPart part :: core.stored

/-- The nodes stored in further members of a compound query. -/
def CompoundPart.listStored : List CompoundPart → List Node
  | [] => []
  | part :: rest => part.stored ++ CompoundPart.listStored rest

/-- The nodes stored in the kind of a limit. -/
@[simp] def LimitKind.stored : LimitKind → List Node
  | .expressions count offset => count.stored ++ Expr.optionStored offset
  | .placeholder _ => []

/-- The nodes stored in a limit. -/
@[simp] def Limit.stored : Limit → List Node
  | whole@⟨kind, _⟩ => .limit whole :: kind.stored

/-- The nodes stored in a limit that may be missing. -/
def Limit.optionStored : Option Limit → List Node
  | none => []
  | some limit => limit.stored

/-- The nodes stored in a query. -/
@[simp] def Query.stored : Query → List Node
  | query@⟨commonTables, core, compounds, order, limit, _⟩ =>
    .query query :: (WithClause.optionStored commonTables ++ core.stored ++
      CompoundPart.listStored compounds ++ OrderBy.optionStored order ++
      Limit.optionStored limit)

end

/-! ## Statements that change rows -/

/-- The nodes stored in a column of an index. -/
def IndexedColumn.stored (column : IndexedColumn) : List Node :=
  .indexedColumn column :: column.expr.stored

/-- The nodes stored in new values for columns. -/
def Assignment.stored (assignment : Assignment) : List Node :=
  .assignment assignment :: assignment.value.stored

/-- The nodes stored in the source of an insertion. -/
def InsertSource.stored : InsertSource → List Node
  | .values clause => clause.stored
  | .query rows => rows.stored
  | .defaultValues _ | .placeholder _ _ => []

/-- The nodes stored in the target of a conflict. -/
def ConflictTarget.stored (target : ConflictTarget) : List Node :=
  .conflictTarget target ::
    (target.columns.flatMap IndexedColumn.stored ++ Expr.optionStored target.filter)

/-- The nodes stored in what is done with a row that conflicts. -/
def UpsertAction.stored : UpsertAction → List Node
  | .nothing => []
  | .update assignments filter =>
    assignments.flatMap Assignment.stored ++ Expr.optionStored filter

/-- The nodes stored in a conflict clause. -/
def Upsert.stored (upsert : Upsert) : List Node :=
  .upsert upsert :: (upsert.target.toList.flatMap ConflictTarget.stored ++ upsert.action.stored)

/-- The nodes stored in a returning clause. -/
def Returning.stored (returning : Returning) : List Node :=
  .returning returning :: ResultColumn.listStored returning.columns

/-- The nodes stored in an insertion. -/
def Insert.stored (insert : Insert) : List Node :=
  .insert insert :: (WithClause.optionStored insert.commonTables ++ insert.source.stored ++
    insert.upserts.flatMap Upsert.stored ++ insert.returning.toList.flatMap Returning.stored)

/-- The nodes stored in an update. -/
def Update.stored (update : Update) : List Node :=
  .update update :: (WithClause.optionStored update.commonTables ++
    update.assignments.flatMap Assignment.stored ++ TableRef.optionStored update.source ++
    Expr.optionStored update.filter ++ update.returning.toList.flatMap Returning.stored)

/-- The nodes stored in a deletion. -/
def Delete.stored (delete : Delete) : List Node :=
  .delete delete :: (WithClause.optionStored delete.commonTables ++
    Expr.optionStored delete.filter ++ delete.returning.toList.flatMap Returning.stored)

/-- The nodes stored in a statement that reads or changes rows. -/
def DataStatement.stored : DataStatement → List Node
  | .select statement => statement.stored
  | .insert statement => statement.stored
  | .update statement => statement.stored
  | .delete statement => statement.stored

/-! ## Statements that create things -/

/-- A foreign key is a leaf. -/
def ForeignKey.stored (key : ForeignKey) : List Node :=
  [.foreignKey key]

/-- A class of rows is a leaf. -/
def RowClass.stored (rowClass : RowClass) : List Node :=
  [.rowClass rowClass]

/-- The nodes stored in what a constraint of a column demands. -/
def ColumnConstraintKind.stored : ColumnConstraintKind → List Node
  | .check expr | .default expr | .generated expr _ _ => expr.stored
  | .foreignKey key => key.stored
  | .primaryKey _ _ _ | .notNull _ | .null | .unique _ | .collate _ | .mappedBy _ | .jsonKey _
  | .dartName _ => []

/-- The nodes stored in a constraint of a column. -/
def ColumnConstraint.stored (constraint : ColumnConstraint) : List Node :=
  .columnConstraint constraint :: constraint.kind.stored

/-- The nodes stored in the definition of a column. -/
def ColumnDefinition.stored (column : ColumnDefinition) : List Node :=
  .columnDefinition column ::
    (column.type.toList.flatMap TypeName.stored ++
      column.constraints.flatMap ColumnConstraint.stored)

/-- The nodes stored in what a constraint of a table demands. -/
def TableConstraintKind.stored : TableConstraintKind → List Node
  | .primaryKey columns _ | .unique columns _ => columns.flatMap IndexedColumn.stored
  | .check expr => expr.stored
  | .foreignKey _ key => key.stored

/-- The nodes stored in a constraint of a table. -/
def TableConstraint.stored (constraint : TableConstraint) : List Node :=
  .tableConstraint constraint :: constraint.kind.stored

/-- The nodes stored in a statement that creates a table. -/
def CreateTable.stored (table : CreateTable) : List Node :=
  .createTable table ::
    (table.columns.flatMap ColumnDefinition.stored ++
      table.constraints.flatMap TableConstraint.stored ++
      table.asSelect.toList.flatMap Query.stored ++ table.rowClass.toList.flatMap RowClass.stored)

/-- A statement that creates a virtual table is a leaf. -/
def CreateVirtualTable.stored (table : CreateVirtualTable) : List Node :=
  [.createVirtualTable table]

/-- The nodes stored in a statement that creates a view. -/
def CreateView.stored (view : CreateView) : List Node :=
  .createView view :: (view.rowClass.toList.flatMap RowClass.stored ++ view.query.stored)

/-- The nodes stored in a statement that creates an index. -/
def CreateIndex.stored (index : CreateIndex) : List Node :=
  .createIndex index ::
    (index.columns.flatMap IndexedColumn.stored ++ Expr.optionStored index.filter)

mutual

/-- The nodes stored in a statement that creates a trigger. -/
@[simp] def CreateTrigger.stored : CreateTrigger → List Node
  | trigger@⟨_, _, _, _, _, _, _, _, condition, body, _⟩ =>
    .createTrigger trigger :: (Expr.optionStored condition ++ Statement.listStored body)

/-- The nodes stored in a statement. -/
def Statement.stored : Statement → List Node
  | .data statement => statement.stored
  | .createTable statement => statement.stored
  | .createVirtualTable statement => statement.stored
  | .createView statement => statement.stored
  | .createTrigger statement => statement.stored
  | .createIndex statement => statement.stored

/-- The nodes stored in several statements. -/
def Statement.listStored : List Statement → List Node
  | [] => []
  | statement :: rest => statement.stored ++ Statement.listStored rest

end

/-! ## Drift files -/

/-- An import is a leaf. -/
def Import.stored (entry : Import) : List Node :=
  [.imported entry]

/-- The nodes stored in a hint about a variable. -/
def StatementParameter.stored (parameter : StatementParameter) : List Node :=
  .statementParameter parameter ::
    match parameter with
    | .variableType _ _ type _ _ => type.toList.flatMap TypeName.stored
    | .defaultValue _ value _ => value.stored

/-- The nodes stored in a statement with a name. -/
def DeclaredStatement.stored (declared : DeclaredStatement) : List Node :=
  .declared declared ::
    (declared.parameters.flatMap StatementParameter.stored ++ declared.statement.stored)

/-- The nodes stored in an entry of a drift file. -/
def DriftEntry.stored : DriftEntry → List Node
  | .imported entry => entry.stored
  | .declared entry => entry.stored
  | .onCreate statement _ => statement.stored
  | .plain statement => statement.stored

/-- The nodes stored in a drift file. -/
def DriftFile.stored (file : DriftFile) : List Node :=
  .driftFile file :: file.entries.flatMap DriftEntry.stored

/-! ## Nodes -/

/-- The nodes stored in a node, itself first. -/
def Node.stored : Node → List Node
  | .expr part => part.stored
  | .query part => part.stored
  | .insert part => part.stored
  | .update part => part.stored
  | .delete part => part.stored
  | .createTable part => part.stored
  | .createVirtualTable part => part.stored
  | .createView part => part.stored
  | .createTrigger part => part.stored
  | .createIndex part => part.stored
  | .withClause part => part.stored
  | .commonTable part => part.stored
  | .selectClause part => part.stored
  | .valuesClause part => part.stored
  | .compoundPart part => part.stored
  | .resultColumn part => part.stored
  | .tableRef part => part.stored
  | .join part => part.stored
  | .whenClause part => part.stored
  | .orderBy part => part.stored
  | .orderingItem part => part.stored
  | .limit part => part.stored
  | .window part => part.stored
  | .namedWindow part => part.stored
  | .frame part => part.stored
  | .typeName part => part.stored
  | .assignment part => part.stored
  | .upsert part => part.stored
  | .conflictTarget part => part.stored
  | .returning part => part.stored
  | .columnDefinition part => part.stored
  | .columnConstraint part => part.stored
  | .tableConstraint part => part.stored
  | .foreignKey part => part.stored
  | .indexedColumn part => part.stored
  | .rowClass part => part.stored
  | .driftFile part => part.stored
  | .imported part => part.stored
  | .declared part => part.stored
  | .statementParameter part => part.stored

/-! ## Lists and parts that may be missing -/

section

variable {α β : Type} {stored : α → List β}

/-- What goes through a list entry by entry joins what it gives for the entries. -/
private lemma eq_flatMap {listStored : List α → List β} (nil : listStored [] = [])
    (cons : ∀ first rest, listStored (first :: rest) = stored first ++ listStored rest)
    (list : List α) : listStored list = list.flatMap stored := by
  induction list with
  | nil => exact nil
  | cons first rest ih => rw [cons, ih, List.flatMap_cons]

/-- What goes through an optional part gives what it gives for the part, if there is one. -/
private lemma eq_flatMap_toList {optionStored : Option α → List β} (none : optionStored none = [])
    (some : ∀ part, optionStored (some part) = stored part) (part : Option α) :
    optionStored part = part.toList.flatMap stored := by
  cases part with
  | none => exact none
  | some part => rw [some, Option.toList_some, List.flatMap_singleton]

end

/-- The nodes stored in several expressions are those of each of them, one after the other. -/
@[simp] lemma Expr.listStored_eq (items : List Expr) :
    Expr.listStored items = items.flatMap Expr.stored :=
  eq_flatMap (by rw [listStored]) (fun _ _ => by rw [listStored]) items

/-- The nodes stored in an expression that may be missing are those of the expression, if it is
there. -/
@[simp] lemma Expr.optionStored_eq (part : Option Expr) :
    Expr.optionStored part = part.toList.flatMap Expr.stored :=
  eq_flatMap_toList (by rw [optionStored]) (fun _ => by rw [optionStored]) part

/-- The nodes stored in the branches of a choice are those of each branch, one after the other. -/
@[simp] lemma WhenClause.listStored_eq (branches : List WhenClause) :
    WhenClause.listStored branches = branches.flatMap WhenClause.stored :=
  eq_flatMap (by rw [listStored]) (fun _ _ => by rw [listStored]) branches

/-- The nodes stored in the items of a sorting clause are those of each item, one after the
other. -/
@[simp] lemma OrderingItem.listStored_eq (items : List OrderingItem) :
    OrderingItem.listStored items = items.flatMap OrderingItem.stored :=
  eq_flatMap (by rw [listStored]) (fun _ _ => by rw [listStored]) items

/-- The nodes stored in a sorting clause that may be missing are those of the clause, if it is
there. -/
@[simp] lemma OrderBy.optionStored_eq (part : Option OrderBy) :
    OrderBy.optionStored part = part.toList.flatMap OrderBy.stored :=
  eq_flatMap_toList (by rw [optionStored]) (fun _ => by rw [optionStored]) part

/-- The nodes stored in a frame that may be missing are those of the frame, if it is there. -/
@[simp] lemma Frame.optionStored_eq (part : Option Frame) :
    Frame.optionStored part = part.toList.flatMap Frame.stored :=
  eq_flatMap_toList (by rw [optionStored]) (fun _ => by rw [optionStored]) part

/-- The nodes stored in windows with names are those of each window, one after the other. -/
@[simp] lemma NamedWindow.listStored_eq (windows : List NamedWindow) :
    NamedWindow.listStored windows = windows.flatMap NamedWindow.stored :=
  eq_flatMap (by rw [listStored]) (fun _ _ => by rw [listStored]) windows

/-- The nodes stored in what joined rows may have in common are those of the constraint, if there is
one. -/
@[simp] lemma JoinConstraint.optionStored_eq (part : Option JoinConstraint) :
    JoinConstraint.optionStored part = part.toList.flatMap JoinConstraint.stored :=
  eq_flatMap_toList (by rw [optionStored]) (fun _ => by rw [optionStored]) part

/-- The nodes stored in a table reference that may be missing are those of the reference, if it is
there. -/
@[simp] lemma TableRef.optionStored_eq (part : Option TableRef) :
    TableRef.optionStored part = part.toList.flatMap TableRef.stored :=
  eq_flatMap_toList (by rw [optionStored]) (fun _ => by rw [optionStored]) part

/-- The nodes stored in result columns are those of each column, one after the other. -/
@[simp] lemma ResultColumn.listStored_eq (columns : List ResultColumn) :
    ResultColumn.listStored columns = columns.flatMap ResultColumn.stored :=
  eq_flatMap (by rw [listStored]) (fun _ _ => by rw [listStored]) columns

/-- The nodes stored in common tables are those of each table, one after the other. -/
@[simp] lemma CommonTable.listStored_eq (tables : List CommonTable) :
    CommonTable.listStored tables = tables.flatMap CommonTable.stored :=
  eq_flatMap (by rw [listStored]) (fun _ _ => by rw [listStored]) tables

/-- The nodes stored in the common tables of a statement are those of the clause, if the statement
has one. -/
@[simp] lemma WithClause.optionStored_eq (part : Option WithClause) :
    WithClause.optionStored part = part.toList.flatMap WithClause.stored :=
  eq_flatMap_toList (by rw [optionStored]) (fun _ => by rw [optionStored]) part

/-- The nodes stored in the further members of a compound query are those of each member, one after
the other. -/
@[simp] lemma CompoundPart.listStored_eq (parts : List CompoundPart) :
    CompoundPart.listStored parts = parts.flatMap CompoundPart.stored :=
  eq_flatMap (by rw [listStored]) (fun _ _ => by rw [listStored]) parts

/-- The nodes stored in a limit that may be missing are those of the limit, if it is there. -/
@[simp] lemma Limit.optionStored_eq (part : Option Limit) :
    Limit.optionStored part = part.toList.flatMap Limit.stored :=
  eq_flatMap_toList (by rw [optionStored]) (fun _ => by rw [optionStored]) part

/-- The nodes stored in rows of values are those of each value of each row, in their order. -/
@[simp] lemma ValuesClause.rowsStored_eq (rows : List (List Expr)) :
    ValuesClause.rowsStored rows = rows.flatMap (List.flatMap Expr.stored) :=
  eq_flatMap (by rw [rowsStored]) (fun _ _ => by rw [rowsStored, Expr.listStored_eq]) rows

/-- The nodes stored in the statements of a trigger are those of each statement, one after the
other. -/
@[simp] lemma Statement.listStored_eq (statements : List Statement) :
    Statement.listStored statements = statements.flatMap Statement.stored :=
  eq_flatMap (by rw [listStored]) (fun _ _ => by rw [listStored]) statements

end SqlTree
