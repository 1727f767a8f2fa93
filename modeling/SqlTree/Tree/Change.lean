import SqlTree.Tree.Expr

set_option autoImplicit false

/-!
# Statements that change rows

## Main definitions

* `SqlTree.Insert`, `SqlTree.Update`, `SqlTree.Delete` — the three kinds of changes.
* `SqlTree.IndexedColumn` — a column of an index, of a key or of the target of a conflict.
-/

namespace SqlTree

/-- An expression that rows are indexed by. -/
structure IndexedColumn where
  expr : Expr
  direction : Option OrderDirection
  span : Span

/-- What an insertion does about rows that are there already. -/
inductive InsertMode where
  | insert
  | replace
  | insertOr (conflict : Conflict)
deriving DecidableEq, Repr, Inhabited

/-- New values for columns. -/
structure Assignment where
  columns : List String
  value : Expr
  span : Span

/-- Where the inserted rows come from. -/
inductive InsertSource where
  | values (clause : ValuesClause)
  | query (rows : Query)
  | defaultValues (span : Span)
  | placeholder (name : String) (span : Span)

/-- Where the source of an insertion is written. -/
def InsertSource.span : InsertSource → Span
  | .values clause => clause.span
  | .query rows => rows.span
  | .defaultValues span | .placeholder _ span => span

/-- The index whose conflicts are resolved. -/
structure ConflictTarget where
  columns : List IndexedColumn
  filter : Option Expr
  span : Span

/-- What is done with a row that conflicts. -/
inductive UpsertAction where
  | nothing
  | update (assignments : List Assignment) (filter : Option Expr)

/-- How conflicts with rows that are there already are resolved. -/
structure Upsert where
  target : Option ConflictTarget
  action : UpsertAction
  span : Span

/-- The columns of the changed rows that a statement returns. -/
structure Returning where
  columns : List ResultColumn
  span : Span

/-- A statement that inserts rows. -/
structure Insert where
  commonTables : Option WithClause
  mode : InsertMode
  schema : Option String
  table : String
  aliasName : Option String
  columns : List String
  source : InsertSource
  upserts : List Upsert
  returning : Option Returning
  span : Span

/-- A statement that changes rows. -/
structure Update where
  commonTables : Option WithClause
  conflict : Option Conflict
  schema : Option String
  table : String
  aliasName : Option String
  assignments : List Assignment
  source : Option TableRef
  filter : Option Expr
  returning : Option Returning
  span : Span

/-- A statement that deletes rows. -/
structure Delete where
  commonTables : Option WithClause
  schema : Option String
  table : String
  aliasName : Option String
  filter : Option Expr
  returning : Option Returning
  span : Span

/-- A statement that reads or changes rows. -/
inductive DataStatement where
  | select (statement : Query)
  | insert (statement : Insert)
  | update (statement : Update)
  | delete (statement : Delete)

/-- Where a statement is written. -/
def DataStatement.span : DataStatement → Span
  | .select statement => statement.span
  | .insert statement => statement.span
  | .update statement => statement.span
  | .delete statement => statement.span

end SqlTree
