import SqlTree.Grammar.Query
import SqlTree.Tree.Change

set_option autoImplicit false

/-!
# Parsing statements that change rows

## Main definitions

* `SqlTree.Grammar.insert`, `SqlTree.Grammar.update`, `SqlTree.Grammar.delete` — the three kinds of
  changes, after their common tables.
* `SqlTree.Grammar.indexedColumns` — the columns of an index, of a key or of the target of a
  conflict.
* `SqlTree.Grammar.dataStatement` — any statement that reads or changes rows.
-/

namespace SqlTree.Grammar

open SqlTree.Parser

variable (rules : Rules)

/-! ## Parts of several statements -/

/-- The resolution of conflicts that a keyword is. -/
def conflict? : TokenKind → Option Conflict
  | .keyword .ROLLBACK => some .rollback
  | .keyword .ABORT => some .abort
  | .keyword .FAIL => some .fail
  | .keyword .IGNORE => some .ignore
  | .keyword .REPLACE => some .replace
  | _ => none

/-- A resolution of conflicts. -/
def conflict : Parser Conflict := do
  match conflict? (← current).kind with
  | some resolution =>
    let _ ← advance
    return resolution
  | none => unexpected "ROLLBACK, ABORT, FAIL, IGNORE or REPLACE"

/-- An expression that rows are indexed by. -/
def indexedColumn : Parser IndexedColumn := do
  let expr ← rules.expr
  let direction ← direction
  return ⟨expr, direction, ← spanFrom expr.span⟩

/-- One or more indexed columns with commas between them. -/
def indexedColumns : Parser (List IndexedColumn) :=
  commaSeparated rules.limit (indexedColumn rules)

/-- A new value for a column, or for several. -/
def assignment : Parser Assignment := do
  let start ← here
  let columns ←
    if ← sees (·.atSymbol .leftParen) then
      rules.columnNames
    else do
      pure [← identifier]
  let _ ← expectSymbol .eq
  let value ← rules.expr
  return ⟨columns, value, ← spanFrom start⟩

/-- One or more assignments with commas between them. -/
def assignments : Parser (List Assignment) :=
  commaSeparated rules.limit (assignment rules)

/-- The columns that a change returns. -/
def returning : Parser Returning := do
  let start ← here
  require .returning "RETURNING clauses" start
  let _ ← advance
  let columns ← resultColumns rules
  return ⟨columns, ← spanFrom start⟩

/-- The columns that a change returns, if any. -/
def optionalReturning : Parser (Option Returning) :=
  whenever (·.atKeyword .RETURNING) (returning rules)

/-! ## Insertions -/

/-- What an insertion does about rows that are there already. -/
def insertMode : Parser InsertMode := do
  if ← eatKeyword .REPLACE then
    return .replace
  else
    let _ ← expectKeyword .INSERT
    if ← eatKeyword .OR then
      return .insertOr (← conflict)
    else
      return .insert

/-- Where the inserted rows come from. -/
def insertSource : Parser InsertSource := do
  let view ← view
  let start := view.current.span
  if view.atKeyword .VALUES then
    return .values (← valuesClause rules)
  else if view.atAnyKeyword [.SELECT, .WITH] then
    return .query (← rules.query)
  else if view.atKeyword .DEFAULT then
    let _ ← advance
    let _ ← expectKeyword .VALUES
    return .defaultValues (← spanFrom start)
  else
    match view.dollarName? with
    | some name =>
      if ← isDrift then
        let _ ← advance
        return .placeholder name start
      else
        unexpected "VALUES, SELECT or DEFAULT VALUES"
    | none => unexpected "VALUES, SELECT or DEFAULT VALUES"

/-- The index whose conflicts are resolved. -/
def conflictTarget : Parser ConflictTarget := do
  let start ← here
  let columns ← parenthesized (indexedColumns rules)
  let filter ← afterKeyword .WHERE rules.expr
  return ⟨columns, filter, ← spanFrom start⟩

/-- What is done with a row that conflicts. -/
def upsertAction : Parser UpsertAction := do
  let _ ← expectKeyword .DO
  if ← eatKeyword .NOTHING then
    return .nothing
  else
    expectKeywords [.UPDATE, .SET]
    let assignments ← assignments rules
    let filter ← afterKeyword .WHERE rules.expr
    return .update assignments filter

/-- How conflicts with rows that are there already are resolved. -/
def upsert : Parser Upsert := do
  let start ← here
  require .upsert "ON CONFLICT clauses" start
  expectKeywords [.ON, .CONFLICT]
  let target ← whenever (·.atSymbol .leftParen) (conflictTarget rules)
  let action ← upsertAction rules
  return ⟨target, action, ← spanFrom start⟩

/-- A statement that inserts rows, after its common tables. -/
def insert (commonTables : Option WithClause) (start : Span) : Parser Insert := do
  let mode ← insertMode
  let _ ← expectKeyword .INTO
  let (schema, table) ← qualifiedName
  let aliasName ← asName
  let columns ← rules.optionalColumnNames
  let source ← insertSource rules
  let upserts ← many rules.limit (whenever (·.atKeywords .ON .CONFLICT) (upsert rules))
  let returning ← optionalReturning rules
  return ⟨commonTables, mode, schema, table, aliasName, columns, source, upserts, returning,
    ← spanFrom start⟩

/-! ## Updates and deletions -/

/-- A statement that changes rows, after its common tables. -/
def update (commonTables : Option WithClause) (start : Span) : Parser Update := do
  let _ ← expectKeyword .UPDATE
  let onConflict ← afterKeyword .OR conflict
  let (schema, table) ← qualifiedName
  let aliasName ← asName
  let _ ← expectKeyword .SET
  let assignments ← assignments rules
  let source ← afterKeyword .FROM rules.tableRef
  let filter ← afterKeyword .WHERE rules.expr
  let returning ← optionalReturning rules
  return ⟨commonTables, onConflict, schema, table, aliasName, assignments, source, filter,
    returning, ← spanFrom start⟩

/-- A statement that deletes rows, after its common tables. -/
def delete (commonTables : Option WithClause) (start : Span) : Parser Delete := do
  expectKeywords [.DELETE, .FROM]
  let (schema, table) ← qualifiedName
  let aliasName ← asName
  let filter ← afterKeyword .WHERE rules.expr
  let returning ← optionalReturning rules
  return ⟨commonTables, schema, table, aliasName, filter, returning, ← spanFrom start⟩

/-! ## Statements that read or change rows -/

/-- A statement that reads or changes rows, after its common tables. -/
def dataStatementAfter (commonTables : Option WithClause) (start : Span) (expected : String) :
    Parser DataStatement := do
  let view ← view
  if view.atAnyKeyword [.SELECT, .VALUES] then
    return .select (← queryAfter rules commonTables start)
  else if view.atAnyKeyword [.INSERT, .REPLACE] then
    return .insert (← insert rules commonTables start)
  else if view.atKeyword .UPDATE then
    return .update (← update rules commonTables start)
  else if view.atKeyword .DELETE then
    return .delete (← delete rules commonTables start)
  else
    unexpected expected

/-- A statement that reads or changes rows. The error for one that does not start like that is the
caller's; after common tables there is only one. -/
def dataStatement (expected : String) : Parser DataStatement := do
  let start ← here
  if ← sees (·.atKeyword .WITH) then
    let commonTables ← withClause rules
    dataStatementAfter rules (some commonTables) start "SELECT, INSERT, UPDATE or DELETE"
  else
    dataStatementAfter rules none start expected

end SqlTree.Grammar
