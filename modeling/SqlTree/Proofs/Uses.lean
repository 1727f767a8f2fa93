import Mathlib.Tactic.Lemma
import SqlTree.Dialect
import SqlTree.Proofs.Entry
import SqlTree.Tree.DriftFile

set_option autoImplicit false

/-!
# The features that a tree uses

A construct that not every dialect reads uses a feature, and a tree uses the features of all the
constructs in it, at any depth. Being distinct uses none: its tree is that of a comparison.

## Main definitions

* `SqlTree.Expr.features`, `SqlTree.Query.features` — the features of expressions and queries.
* `SqlTree.Statement.features`, `SqlTree.DriftFile.features` — the features of statements and files.
* `SqlTree.Dialect.Reads` — a dialect has all features of a list.
-/

namespace SqlTree

/-- A feature that is used under a condition. -/
def Feature.usedIf (feature : Feature) (condition : Bool) : List Feature :=
  if condition then [feature] else []

/-! ## Leaves -/

/-- The features of an operator. -/
def BinaryOp.features : BinaryOp → List Feature
  | .jsonExtract | .jsonExtractText => [.jsonArrows]
  | _ => []

/-- The features of a kind of join. -/
def JoinKind.features : JoinKind → List Feature
  | .right | .full => [.rightFullJoin]
  | _ => []

/-! ## Expressions and queries -/

mutual

/-- The features of an expression. -/
@[simp] def Expr.features : Expr → List Feature
  | .literal _ _ | .reference _ _ _ _ | .variable _ _ => []
  | .placeholder _ _ => [.driftExtensions]
  | .unary _ operand _ => operand.features
  | .binary left op right _ => left.features ++ op.features ++ right.features
  | .collate operand _ _ => operand.features
  | .isNull operand _ _ => operand.features
  | .like operand _ pattern escape _ _ =>
    operand.features ++ pattern.features ++ Expr.optionFeatures escape
  | .isIn operand source _ _ => operand.features ++ source.features
  | .between operand low high _ _ => operand.features ++ low.features ++ high.features
  | .cases operand branches otherwise _ =>
    Expr.optionFeatures operand ++ WhenClause.listFeatures branches ++
      Expr.optionFeatures otherwise
  | .cast operand _ _ => operand.features
  | .existsRow query _ _ => query.features
  | .subquery query _ => query.features
  | .tuple items _ => Expr.listFeatures items
  | .parentheses inner _ => inner.features
  | .call _ parameters _ => parameters.features
  | .aggregate _ parameters order filter _ =>
    parameters.features ++ OrderBy.optionFeatures order ++
      Feature.windowFunctions.usedIf filter.isSome ++ Expr.optionFeatures filter
  | .windowCall _ parameters filter window _ =>
    .windowFunctions :: parameters.features ++ Expr.optionFeatures filter ++ window.features
  | .raise _ message _ => Expr.optionFeatures message

/-- The features of several expressions. -/
@[simp] def Expr.listFeatures : List Expr → List Feature
  | [] => []
  | expr :: rest => expr.features ++ Expr.listFeatures rest

/-- The features of an expression that may be missing. -/
@[simp] def Expr.optionFeatures : Option Expr → List Feature
  | none => []
  | some expr => expr.features

/-- The features of what membership is tested in. -/
@[simp] def InSource.features : InSource → List Feature
  | .list items => Expr.listFeatures items
  | .subquery query => query.features
  | .table _ _ _ => []
  | .variable which => which.features

/-- The features of a branch of a choice. -/
@[simp] def WhenClause.features : WhenClause → List Feature
  | ⟨condition, result, _⟩ => condition.features ++ result.features

/-- The features of the branches of a choice. -/
@[simp] def WhenClause.listFeatures : List WhenClause → List Feature
  | [] => []
  | branch :: rest => branch.features ++ WhenClause.listFeatures rest

/-- The features of what a function is called with. -/
@[simp] def Parameters.features : Parameters → List Feature
  | .none | .star => []
  | .list _ arguments => Expr.listFeatures arguments

/-- The features of the window of a function. -/
@[simp] def Over.features : Over → List Feature
  | .window definition => definition.features
  | .named _ _ => []

/-- The features of a sorting term. -/
@[simp] def OrderingTerm.features : OrderingTerm → List Feature
  | ⟨expr, _, nulls, _⟩ => expr.features ++ Feature.nullsOrdering.usedIf nulls.isSome

/-- The features of an item of a sorting clause. -/
@[simp] def OrderingItem.features : OrderingItem → List Feature
  | .term sorting => sorting.features
  | .placeholder _ _ => [.driftExtensions]

/-- The features of the items of a sorting clause. -/
@[simp] def OrderingItem.listFeatures : List OrderingItem → List Feature
  | [] => []
  | item :: rest => item.features ++ OrderingItem.listFeatures rest

/-- The features of a sorting clause. -/
@[simp] def OrderBy.features : OrderBy → List Feature
  | ⟨items, _⟩ => OrderingItem.listFeatures items

/-- The features of a sorting clause that may be missing. -/
@[simp] def OrderBy.optionFeatures : Option OrderBy → List Feature
  | none => []
  | some order => order.features

/-- The features of an end of a frame. -/
@[simp] def FrameBound.features : FrameBound → List Feature
  | .unboundedPreceding | .currentRow | .unboundedFollowing => []
  | .preceding offset | .following offset => offset.features

/-- The features of a frame. -/
@[simp] def Frame.features : Frame → List Feature
  | ⟨_, start, stop, _, _⟩ => start.features ++ stop.features

/-- The features of a frame that may be missing. -/
@[simp] def Frame.optionFeatures : Option Frame → List Feature
  | none => []
  | some frame => frame.features

/-- The features of the definition of a window. -/
@[simp] def Window.features : Window → List Feature
  | ⟨_, partition, order, frame, _⟩ =>
    Expr.listFeatures partition ++ OrderBy.optionFeatures order ++ Frame.optionFeatures frame

/-- The features of a window with a name. -/
@[simp] def NamedWindow.features : NamedWindow → List Feature
  | ⟨_, definition, _⟩ => .windowFunctions :: definition.features

/-- The features of windows with names. -/
@[simp] def NamedWindow.listFeatures : List NamedWindow → List Feature
  | [] => []
  | window :: rest => window.features ++ NamedWindow.listFeatures rest

/-- The features of what joined rows have in common. -/
@[simp] def JoinConstraint.optionFeatures : Option JoinConstraint → List Feature
  | some (.condition expr) => expr.features
  | _ => []

/-- The features of a join. -/
@[simp] def Join.features : Join → List Feature
  | ⟨_, kind, table, constraint, _⟩ =>
    kind.features ++ table.features ++ JoinConstraint.optionFeatures constraint

/-- The features of a table reference. -/
@[simp] def TableRef.features : TableRef → List Feature
  | .table _ _ _ _ _ => []
  | .subquery query _ _ => query.features
  | .function _ _ arguments _ _ => Expr.listFeatures arguments
  | .parenthesized inner _ => inner.features
  | .join left right _ => left.features ++ right.features

/-- The features of a table reference that may be missing. -/
@[simp] def TableRef.optionFeatures : Option TableRef → List Feature
  | none => []
  | some table => table.features

/-- The features of a result column. -/
@[simp] def ResultColumn.features : ResultColumn → List Feature
  | .star _ | .tableStar _ _ => []
  | .nestedStar _ _ => [.driftExtensions]
  | .expression expr _ mappedBy _ =>
    expr.features ++ Feature.driftExtensions.usedIf mappedBy.isSome
  | .nestedQuery query _ _ => .driftExtensions :: query.features

/-- The features of result columns. -/
@[simp] def ResultColumn.listFeatures : List ResultColumn → List Feature
  | [] => []
  | column :: rest => column.features ++ ResultColumn.listFeatures rest

/-- The features of a common table. -/
@[simp] def CommonTable.features : CommonTable → List Feature
  | ⟨_, _, materialized, query, _⟩ =>
    Feature.materializedTables.usedIf materialized.isSome ++ query.features

/-- The features of common tables. -/
@[simp] def CommonTable.listFeatures : List CommonTable → List Feature
  | [] => []
  | table :: rest => table.features ++ CommonTable.listFeatures rest

/-- The features of the common tables of a statement. -/
@[simp] def WithClause.features : WithClause → List Feature
  | ⟨_, tables, _⟩ => CommonTable.listFeatures tables

/-- The features of the common tables of a statement that may have none. -/
@[simp] def WithClause.optionFeatures : Option WithClause → List Feature
  | none => []
  | some clause => clause.features

/-- The features of a query that computes columns. -/
@[simp] def SelectClause.features : SelectClause → List Feature
  | ⟨_, columns, source, filter, groupBy, having, windows, _⟩ =>
    ResultColumn.listFeatures columns ++ TableRef.optionFeatures source ++
      Expr.optionFeatures filter ++ Expr.listFeatures groupBy ++ Expr.optionFeatures having ++
      NamedWindow.listFeatures windows

/-- The features of rows of values. -/
@[simp] def ValuesClause.rowsFeatures : List (List Expr) → List Feature
  | [] => []
  | row :: rest => Expr.listFeatures row ++ ValuesClause.rowsFeatures rest

/-- The features of a query that lists its rows. -/
@[simp] def ValuesClause.features : ValuesClause → List Feature
  | ⟨rows, _⟩ => ValuesClause.rowsFeatures rows

/-- The features of a member of a compound query. -/
@[simp] def QueryCore.features : QueryCore → List Feature
  | .select clause => clause.features
  | .values clause => clause.features

/-- The features of a further member of a compound query. -/
@[simp] def CompoundPart.features : CompoundPart → List Feature
  | ⟨_, core, _⟩ => core.features

/-- The features of further members of a compound query. -/
@[simp] def CompoundPart.listFeatures : List CompoundPart → List Feature
  | [] => []
  | part :: rest => part.features ++ CompoundPart.listFeatures rest

/-- The features of the kind of a limit. -/
@[simp] def LimitKind.features : LimitKind → List Feature
  | .expressions count offset => count.features ++ Expr.optionFeatures offset
  | .placeholder _ => [.driftExtensions]

/-- The features of a limit. -/
@[simp] def Limit.features : Limit → List Feature
  | ⟨kind, _⟩ => kind.features

/-- The features of a limit that may be missing. -/
@[simp] def Limit.optionFeatures : Option Limit → List Feature
  | none => []
  | some limit => limit.features

/-- The features of a query. -/
@[simp] def Query.features : Query → List Feature
  | ⟨commonTables, core, compounds, order, limit, _⟩ =>
    WithClause.optionFeatures commonTables ++ core.features ++
      CompoundPart.listFeatures compounds ++ OrderBy.optionFeatures order ++
      Limit.optionFeatures limit

end

/-! ## Statements that change rows -/

/-- The features of a column of an index. -/
def IndexedColumn.features (column : IndexedColumn) : List Feature :=
  column.expr.features

/-- The features of new values for columns. -/
def Assignment.features (assignment : Assignment) : List Feature :=
  assignment.value.features

/-- The features of the source of an insertion. -/
def InsertSource.features : InsertSource → List Feature
  | .values clause => clause.features
  | .query rows => rows.features
  | .defaultValues _ => []
  | .placeholder _ _ => [.driftExtensions]

/-- The features of the target of a conflict. -/
def ConflictTarget.features (target : ConflictTarget) : List Feature :=
  target.columns.flatMap IndexedColumn.features ++ Expr.optionFeatures target.filter

/-- The features of what is done with a row that conflicts. -/
def UpsertAction.features : UpsertAction → List Feature
  | .nothing => []
  | .update assignments filter =>
    assignments.flatMap Assignment.features ++ Expr.optionFeatures filter

/-- The features of a conflict clause. -/
def Upsert.features (upsert : Upsert) : List Feature :=
  .upsert :: upsert.target.toList.flatMap ConflictTarget.features ++ upsert.action.features

/-- The features of a returning clause. -/
def Returning.features (returning : Returning) : List Feature :=
  .returning :: ResultColumn.listFeatures returning.columns

/-- The features of an insertion. -/
def Insert.features (insert : Insert) : List Feature :=
  WithClause.optionFeatures insert.commonTables ++ insert.source.features ++
    insert.upserts.flatMap Upsert.features ++ insert.returning.toList.flatMap Returning.features

/-- The features of an update. -/
def Update.features (update : Update) : List Feature :=
  WithClause.optionFeatures update.commonTables ++
    update.assignments.flatMap Assignment.features ++ TableRef.optionFeatures update.source ++
    Expr.optionFeatures update.filter ++ update.returning.toList.flatMap Returning.features

/-- The features of a deletion. -/
def Delete.features (delete : Delete) : List Feature :=
  WithClause.optionFeatures delete.commonTables ++ Expr.optionFeatures delete.filter ++
    delete.returning.toList.flatMap Returning.features

/-- The features of a statement that reads or changes rows. -/
def DataStatement.features : DataStatement → List Feature
  | .select statement => statement.features
  | .insert statement => statement.features
  | .update statement => statement.features
  | .delete statement => statement.features

/-! ## Statements that create things -/

/-- The features of what a constraint of a column demands. -/
def ColumnConstraintKind.features : ColumnConstraintKind → List Feature
  | .check expr | .default expr => expr.features
  | .generated expr _ _ => .generatedColumns :: expr.features
  | .mappedBy _ | .jsonKey _ | .dartName _ => [.driftExtensions]
  | .primaryKey _ _ _ | .notNull _ | .null | .unique _ | .collate _ | .foreignKey _ => []

/-- The features of the definition of a column. -/
def ColumnDefinition.features (column : ColumnDefinition) : List Feature :=
  column.constraints.flatMap fun constraint => constraint.kind.features

/-- The features of what a constraint of a table demands. -/
def TableConstraintKind.features : TableConstraintKind → List Feature
  | .primaryKey columns _ | .unique columns _ => columns.flatMap IndexedColumn.features
  | .check expr => expr.features
  | .foreignKey _ _ => []

/-- The features of the definition of a table. -/
def TableDefinition.features (definition : TableDefinition) : List Feature :=
  definition.columns.flatMap ColumnDefinition.features ++
    definition.constraints.flatMap (fun constraint => constraint.kind.features) ++
    Feature.strictTables.usedIf definition.strict ++
    Feature.driftExtensions.usedIf definition.rowClass.isSome

/-- The features of a statement that creates a table. -/
def CreateTable.features (table : CreateTable) : List Feature :=
  table.toTableDefinition.features ++ table.asSelect.toList.flatMap Query.features

mutual

/-- The features of a statement that creates a trigger. -/
def CreateTrigger.features : CreateTrigger → List Feature
  | ⟨_, _, _, _, _, _, _, _, condition, body, _⟩ =>
    Expr.optionFeatures condition ++ Statement.listFeatures body

/-- The features of a statement. -/
def Statement.features : Statement → List Feature
  | .data statement => statement.features
  | .createTable statement => statement.features
  | .createVirtualTable _ => []
  | .createView statement =>
    Feature.driftExtensions.usedIf statement.rowClass.isSome ++ statement.query.features
  | .createTrigger statement => statement.features
  | .createIndex statement =>
    statement.columns.flatMap IndexedColumn.features ++ Expr.optionFeatures statement.filter

/-- The features of several statements. -/
def Statement.listFeatures : List Statement → List Feature
  | [] => []
  | statement :: rest => statement.features ++ Statement.listFeatures rest

end

/-! ## Drift files -/

/-- The features of a hint about a variable. -/
def StatementParameter.features : StatementParameter → List Feature
  | .variableType _ _ _ _ _ => []
  | .defaultValue _ value _ => value.features

/-- The features of an entry of a drift file. -/
def DriftEntry.features : DriftEntry → List Feature
  | .imported _ => []
  | .declared entry =>
    entry.parameters.flatMap StatementParameter.features ++ entry.statement.features
  | .onCreate statement _ => statement.features
  | .plain statement => statement.features

/-- The features of a drift file, which is an extension itself. -/
def DriftFile.features (file : DriftFile) : List Feature :=
  .driftExtensions :: file.entries.flatMap DriftEntry.features

/-- The features of what a source is read as. -/
def Entry.features : (entry : Entry) → entry.Tree → List Feature
  | .statement => Statement.features
  | .expression => Expr.features
  | .script => fun statements => statements.flatMap Statement.features
  | .driftFile => DriftFile.features

/-! ## Having the features -/

/-- The dialect has all these features. -/
def Dialect.Reads (dialect : Dialect) (features : List Feature) : Prop :=
  ∀ feature ∈ features, dialect.supports feature = true

namespace Dialect

variable {dialect : Dialect} {α : Type}

/-- Every dialect reads what uses no feature. -/
@[simp] lemma reads_nil : dialect.Reads [] := fun _ mem => absurd mem List.not_mem_nil

/-- A dialect reads some features if it supports the first one and reads the others. -/
@[simp] lemma reads_cons {feature : Feature} {rest : List Feature} :
    dialect.Reads (feature :: rest) ↔ dialect.supports feature = true ∧ dialect.Reads rest :=
  List.forall_mem_cons

/-- A dialect reads two lists of features together if it reads each of them. -/
@[simp] lemma reads_append {a b : List Feature} :
    dialect.Reads (a ++ b) ↔ dialect.Reads a ∧ dialect.Reads b :=
  List.forall_mem_append

/-- A dialect reads a feature that is used under a condition if it supports it wherever the
condition holds. -/
@[simp] lemma reads_usedIf {feature : Feature} {condition : Bool} :
    dialect.Reads (feature.usedIf condition) ↔
      (condition = true → dialect.supports feature = true) := by
  cases condition <;> simp [Feature.usedIf]

/-- A dialect reads the features of all entries of a list if it reads those of each entry. -/
@[simp] lemma reads_flatMap {list : List α} {features : α → List Feature} :
    dialect.Reads (list.flatMap features) ↔ ∀ part ∈ list, dialect.Reads (features part) := by
  induction list with
  | nil => simp
  | cons part rest ih => simp [ih]

/-! ### Lists and optional parts -/

/-- A dialect reads what several expressions use if it reads what each of them uses. -/
@[simp] lemma reads_exprs {list : List Expr} :
    dialect.Reads (Expr.listFeatures list) ↔ ∀ expr ∈ list, dialect.Reads expr.features := by
  induction list <;> simp_all [Expr.listFeatures]

/-- A dialect reads what the branches of a choice use if it reads what each branch uses. -/
@[simp] lemma reads_branches {list : List WhenClause} :
    dialect.Reads (WhenClause.listFeatures list) ↔
      ∀ branch ∈ list, dialect.Reads branch.features := by
  induction list <;> simp_all [WhenClause.listFeatures]

/-- A dialect reads what the items of a sorting clause use if it reads what each item uses. -/
@[simp] lemma reads_items {list : List OrderingItem} :
    dialect.Reads (OrderingItem.listFeatures list) ↔
      ∀ item ∈ list, dialect.Reads item.features := by
  induction list <;> simp_all [OrderingItem.listFeatures]

/-- A dialect reads what windows with names use if it reads what each window uses. -/
@[simp] lemma reads_windows {list : List NamedWindow} :
    dialect.Reads (NamedWindow.listFeatures list) ↔
      ∀ window ∈ list, dialect.Reads window.features := by
  induction list <;> simp_all [NamedWindow.listFeatures]

/-- A dialect reads what result columns use if it reads what each column uses. -/
@[simp] lemma reads_columns {list : List ResultColumn} :
    dialect.Reads (ResultColumn.listFeatures list) ↔
      ∀ column ∈ list, dialect.Reads column.features := by
  induction list <;> simp_all [ResultColumn.listFeatures]

/-- A dialect reads what common tables use if it reads what each table uses. -/
@[simp] lemma reads_tables {list : List CommonTable} :
    dialect.Reads (CommonTable.listFeatures list) ↔
      ∀ table ∈ list, dialect.Reads table.features := by
  induction list <;> simp_all [CommonTable.listFeatures]

/-- A dialect reads what the further members of a compound query use if it reads what each member
uses. -/
@[simp] lemma reads_parts {list : List CompoundPart} :
    dialect.Reads (CompoundPart.listFeatures list) ↔
      ∀ part ∈ list, dialect.Reads part.features := by
  induction list <;> simp_all [CompoundPart.listFeatures]

/-- A dialect reads what rows of values use if it reads what each value of each row uses. -/
@[simp] lemma reads_rows {rows : List (List Expr)} :
    dialect.Reads (ValuesClause.rowsFeatures rows) ↔
      ∀ row ∈ rows, ∀ expr ∈ row, dialect.Reads expr.features := by
  induction rows <;> simp_all [ValuesClause.rowsFeatures]

/-- A dialect reads what the statements of a trigger use if it reads what each statement uses. -/
@[simp] lemma reads_statements {list : List Statement} :
    dialect.Reads (Statement.listFeatures list) ↔
      ∀ statement ∈ list, dialect.Reads statement.features := by
  induction list <;> simp_all [Statement.listFeatures]

/-- A dialect reads what an expression that may be missing uses if it reads what the expression uses
where it is there. -/
@[simp] lemma reads_optionExpr {part : Option Expr} :
    dialect.Reads (Expr.optionFeatures part) ↔ ∀ expr ∈ part, dialect.Reads expr.features := by
  cases part <;> simp [Expr.optionFeatures]

/-- A dialect reads what a sorting clause that may be missing uses if it reads what the clause uses
where it is there. -/
@[simp] lemma reads_optionOrder {part : Option OrderBy} :
    dialect.Reads (OrderBy.optionFeatures part) ↔
      ∀ order ∈ part, dialect.Reads order.features := by
  cases part <;> simp [OrderBy.optionFeatures]

/-- A dialect reads what a frame that may be missing uses if it reads what the frame uses where it
is there. -/
@[simp] lemma reads_optionFrame {part : Option Frame} :
    dialect.Reads (Frame.optionFeatures part) ↔
      ∀ frame ∈ part, dialect.Reads frame.features := by
  cases part <;> simp [Frame.optionFeatures]

/-- A dialect reads what a table reference that may be missing uses if it reads what the reference
uses where it is there. -/
@[simp] lemma reads_optionTable {part : Option TableRef} :
    dialect.Reads (TableRef.optionFeatures part) ↔
      ∀ table ∈ part, dialect.Reads table.features := by
  cases part <;> simp [TableRef.optionFeatures]

/-- A dialect reads what the common tables of a statement use if it reads what the clause uses where
there is one. -/
@[simp] lemma reads_optionWith {part : Option WithClause} :
    dialect.Reads (WithClause.optionFeatures part) ↔
      ∀ clause ∈ part, dialect.Reads clause.features := by
  cases part <;> simp [WithClause.optionFeatures]

/-- A dialect reads what a limit that may be missing uses if it reads what the limit uses where it
is there. -/
@[simp] lemma reads_optionLimit {part : Option Limit} :
    dialect.Reads (Limit.optionFeatures part) ↔
      ∀ limit ∈ part, dialect.Reads limit.features := by
  cases part <;> simp [Limit.optionFeatures]

end Dialect

end SqlTree
