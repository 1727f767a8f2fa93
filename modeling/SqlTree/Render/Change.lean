import SqlTree.Render.Expr
import SqlTree.Tree.Change

set_option autoImplicit false

/-!
# Writing statements that change rows

## Main definitions

* `SqlTree.Insert.pieces`, `SqlTree.Update.pieces`, `SqlTree.Delete.pieces` — the pieces of the
  three kinds of changes.
* `SqlTree.DataStatement.pieces` — the pieces of a statement that reads or changes rows.
-/

namespace SqlTree

open Render

namespace Render

/-- The pieces of something optional, between the ones before and after it. -/
def optional {α : Type} (value : Option α) (pieces : α → List Piece) : List Piece :=
  match value with
  | some value => pieces value
  | none => []

/-- A condition on rows, after a blank. -/
def whereClause (filter : Option Expr) : List Piece :=
  optional filter fun expr => .blank :: .keyword .WHERE :: .blank :: expr.pieces

/-- The common tables of a statement, before a blank. -/
def withClause (commonTables : Option WithClause) : List Piece :=
  optional commonTables fun clause => clause.pieces ++ [.blank]

end Render

/-- The pieces of a column of an index. -/
def IndexedColumn.pieces (column : IndexedColumn) : List Piece :=
  column.expr.pieces ++ suffix (column.direction.map fun direction => [direction.keyword])

/-- The pieces of new values for columns. -/
def Assignment.pieces (assignment : Assignment) : List Piece :=
  (match assignment.columns with
    | [column] => [.name column]
    | columns => parens (names columns)) ++
    .blank :: .symbol .eq :: .blank :: assignment.value.pieces

/-- The pieces of the columns that a statement returns. -/
def Returning.pieces (returning : Returning) : List Piece :=
  .keyword .RETURNING :: .blank :: commas (returning.columns.map ResultColumn.pieces)

/-- The pieces of the target of a conflict. -/
def ConflictTarget.pieces (target : ConflictTarget) : List Piece :=
  parens (commas (target.columns.map IndexedColumn.pieces)) ++ whereClause target.filter

/-- The pieces of what is done with a row that conflicts. -/
def UpsertAction.pieces : UpsertAction → List Piece
  | .nothing => words [.DO, .NOTHING]
  | .update assignments filter =>
    words [.DO, .UPDATE, .SET] ++ .blank :: commas (assignments.map Assignment.pieces) ++
      whereClause filter

/-- The pieces of a conflict clause. -/
def Upsert.pieces (upsert : Upsert) : List Piece :=
  words [.ON, .CONFLICT] ++ optional upsert.target (fun target => .blank :: target.pieces) ++
    .blank :: upsert.action.pieces

/-- The pieces of the source of an insertion. -/
def InsertSource.pieces : InsertSource → List Piece
  | .values clause => clause.pieces
  | .query rows => rows.pieces
  | .defaultValues _ => words [.DEFAULT, .VALUES]
  | .placeholder name _ => [.variable (.named .dollar name)]

/-- The pieces of the mode of an insertion. -/
def InsertMode.pieces : InsertMode → List Piece
  | .insert => words [.INSERT]
  | .replace => words [.REPLACE]
  | .insertOr conflict => words [.INSERT, .OR, conflict.keyword]

/-- The pieces of a returning clause, after a blank. -/
def Render.returningClause (returning : Option Returning) : List Piece :=
  optional returning fun clause => .blank :: clause.pieces

/-- The pieces of an insertion. -/
def Insert.pieces (insert : Insert) : List Piece :=
  withClause insert.commonTables ++ insert.mode.pieces ++
    .blank :: .keyword .INTO :: .blank :: qualified insert.schema insert.table ++
    aliased insert.aliasName ++
    (if insert.columns.isEmpty then [] else .blank :: parens (names insert.columns)) ++
    .blank :: insert.source.pieces ++
    insert.upserts.flatMap (fun upsert => .blank :: upsert.pieces) ++
    returningClause insert.returning

/-- The pieces of an update. -/
def Update.pieces (update : Update) : List Piece :=
  withClause update.commonTables ++ .keyword .UPDATE :: .blank ::
    optional update.conflict (fun conflict => wordsIf true [.OR, conflict.keyword]) ++
    qualified update.schema update.table ++ aliased update.aliasName ++
    .blank :: .keyword .SET :: .blank :: commas (update.assignments.map Assignment.pieces) ++
    optional update.source (fun table => .blank :: .keyword .FROM :: .blank :: table.pieces) ++
    whereClause update.filter ++ returningClause update.returning

/-- The pieces of a deletion. -/
def Delete.pieces (delete : Delete) : List Piece :=
  withClause delete.commonTables ++ words [.DELETE, .FROM] ++ .blank ::
    qualified delete.schema delete.table ++ aliased delete.aliasName ++
    whereClause delete.filter ++ returningClause delete.returning

/-- The pieces of a statement that reads or changes rows. -/
def DataStatement.pieces : DataStatement → List Piece
  | .select statement => statement.pieces
  | .insert statement => statement.pieces
  | .update statement => statement.pieces
  | .delete statement => statement.pieces

end SqlTree
