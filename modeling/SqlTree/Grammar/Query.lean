import SqlTree.Grammar.Expr

set_option autoImplicit false

/-!
# Parsing queries

## Main definitions

* `SqlTree.Grammar.withClause` — the common tables of a statement.
* `SqlTree.Grammar.queryAfter` — a query after its common tables.
* `SqlTree.Grammar.resultColumns` — the columns of a result.
* `SqlTree.Grammar.joinedTables` — a table reference with its joins.
-/

namespace SqlTree.Grammar

open SqlTree.Parser

variable (rules : Rules)

/-! ## Common tables -/

/-- Whether a common table is kept or computed again for each use, if that is stated. -/
def materialization : Parser (Option Bool) := do
  let start ← here
  let hint ←
    if ← sees (·.atKeywords .NOT .MATERIALIZED) then do
      let _ ← advance
      let _ ← advance
      pure (some false)
    else if ← eatKeyword .MATERIALIZED then
      pure (some true)
    else
      pure none
  if hint.isSome then
    require .materializedTables "MATERIALIZED hints" (← spanFrom start)
  return hint

/-- A query that others can read from under a name. -/
def commonTable : Parser CommonTable := do
  let start ← here
  let name ← identifier
  let columns ← rules.optionalColumnNames
  let _ ← expectKeyword .AS
  let materialized ← materialization
  let query ← parenthesized rules.query
  return ⟨name, columns, materialized, query, ← spanFrom start⟩

/-- The common tables of a statement. -/
def withClause : Parser WithClause := do
  let start ← expectKeyword .WITH
  let recursive ← eatKeyword .RECURSIVE
  let tables ← commaSeparated rules.limit (commonTable rules)
  return ⟨recursive, tables, ← spanFrom start⟩

/-! ## Result columns -/

/-- The Dart code that a construct needs here. -/
def dartCode : Parser String := do
  match (← current).kind with
  | .inlineDart code =>
    let _ ← advance
    return code
  | _ => unexpected "Dart code in backticks"

/-- The Dart converter of a column, after its two keywords. -/
def mappedBy : Parser String := do
  require .driftExtensions "MAPPED BY" (← here)
  let _ ← advance
  let _ ← advance
  dartCode

/-- The Dart converter of a column, if one is there. -/
def optionalMappedBy : Parser (Option String) :=
  whenever (·.atKeywords .MAPPED .BY) mappedBy

/-- The next tokens are a name, a point and an asterisk of this kind. -/
def atTableStar (kind : Symbol) (view : View) : Bool :=
  view.atIdentifier && view.second.isSymbol .dot && view.third.isSymbol kind

/-- The name of a table whose columns an asterisk stands for. -/
def tableOfStar : Parser String := do
  let table ← identifier
  let _ ← advance
  let _ ← advance
  return table

/-- The next tokens start a query whose rows become a list. -/
def atNestedQuery (view : View) : Bool :=
  (match view.current.kind with
    | .identifier name => equalIgnoringCase name "list"
    | _ => false) &&
    view.second.isSymbol .leftParen && [Keyword.SELECT, .WITH].any view.third.isKeyword

/-- A query whose rows become a list. -/
def nestedQuery : Parser ResultColumn := do
  let start ← here
  let _ ← advance
  let query ← parenthesized rules.query
  let aliasName ← optionalAlias
  return .nestedQuery query aliasName (← spanFrom start)

/-- An expression with its name and its Dart converter, in either order. -/
def expressionColumn : Parser ResultColumn := do
  let start ← here
  let expr ← rules.expr
  match ← optionalMappedBy with
  | some code =>
    let aliasName ← optionalAlias
    return .expression expr aliasName (some code) (← spanFrom start)
  | none =>
    let aliasName ← optionalAlias
    let code ← optionalMappedBy
    return .expression expr aliasName code (← spanFrom start)

/-- A column of a result. -/
def resultColumn : Parser ResultColumn := do
  let view ← view
  let start := view.current.span
  if view.atSymbol .star then
    let _ ← advance
    return .star start
  else if atTableStar .star view then
    let table ← tableOfStar
    return .tableStar table (← spanFrom start)
  else if atTableStar .doubleStar view then
    let table ← tableOfStar
    return .nestedStar table (← spanFrom start)
  else if atNestedQuery view then
    if ← isDrift then nestedQuery rules else expressionColumn rules
  else
    expressionColumn rules

/-- One or more columns of a result. -/
def resultColumns : Parser (List ResultColumn) :=
  commaSeparated rules.limit (resultColumn rules)

/-! ## Tables -/

/-- The index that a table is read by, if that is stated. -/
def optionalIndexing : Parser (Option Indexing) := do
  if ← eatKeyword .INDEXED then
    let _ ← expectKeyword .BY
    return some (.indexedBy (← identifier))
  else if ← sees (·.atKeywords .NOT .INDEXED) then
    let _ ← advance
    let _ ← advance
    return some .notIndexed
  else
    return none

/-- A table reference without joins outside parentheses. -/
def singleTable : Parser TableRef := do
  let start ← here
  if ← eatSymbol .leftParen then
    if ← sees (·.atQuery) then
      let query ← rules.query
      let _ ← expectSymbol .rightParen
      let aliasName ← optionalAlias
      return .subquery query aliasName (← spanFrom start)
    else
      let inner ← rules.tableRef
      let _ ← expectSymbol .rightParen
      return .parenthesized inner (← spanFrom start)
  else
    let (schema, name) ← qualifiedName
    if ← eatSymbol .leftParen then
      let arguments ← whenever (!·.atSymbol .rightParen) rules.exprs
      let _ ← expectSymbol .rightParen
      let aliasName ← optionalAlias
      return .function schema name (arguments.getD []) aliasName (← spanFrom start)
    else
      let aliasName ← optionalAlias
      let indexing ← optionalIndexing
      return .table schema name aliasName indexing (← spanFrom start)

/-- The kind of join that the keywords before `JOIN` state. -/
def joinKind : Parser JoinKind := do
  let token ← current
  match token.kind with
  | .keyword .JOIN => return .inner
  | .keyword .INNER =>
    let _ ← advance
    return .inner
  | .keyword .CROSS =>
    let _ ← advance
    return .cross
  | .keyword .LEFT =>
    let _ ← advance
    let _ ← eatKeyword .OUTER
    return .left
  | .keyword .RIGHT =>
    require .rightFullJoin "RIGHT and FULL joins" token.span
    let _ ← advance
    let _ ← eatKeyword .OUTER
    return .right
  | .keyword .FULL =>
    require .rightFullJoin "RIGHT and FULL joins" token.span
    let _ ← advance
    let _ ← eatKeyword .OUTER
    return .full
  | _ => unexpected "JOIN"

/-- A comma, or the keywords of a join: whether it is natural, and its kind. Nothing else is a
join. -/
def optionalJoinOperator : Parser (Option (Bool × JoinKind)) := do
  if ← eatSymbol .comma then
    return some (false, .comma)
  else if ← sees (·.atAnyKeyword [.JOIN, .INNER, .LEFT, .RIGHT, .FULL, .CROSS, .NATURAL]) then
    let natural ← eatKeyword .NATURAL
    let kind ← joinKind
    let _ ← expectKeyword .JOIN
    return some (natural, kind)
  else
    return none

/-- What the rows of a join have in common, if that is stated. -/
def optionalJoinConstraint : Parser (Option JoinConstraint) := do
  if ← eatKeyword .ON then
    return some (.condition (← rules.expr))
  else if ← eatKeyword .USING then
    return some (.columns (← rules.columnNames))
  else
    return none

/-- A further table joined to those on the left, if one is there. -/
def nextJoin (left : TableRef) : Parser (Option TableRef) := do
  let start ← here
  match ← optionalJoinOperator with
  | some (natural, kind) =>
    let table ← singleTable rules
    let constraint ← optionalJoinConstraint rules
    let join : Join := ⟨natural, kind, table, constraint, ← spanFrom start⟩
    return some (.join left join (left.span.merge join.span))
  | none => return none

/-- A table reference with its joins, which group to the left. -/
def joinedTables : Parser TableRef := do
  let first ← singleTable rules
  iterate (nextJoin rules) rules.limit first

/-! ## Members of a query -/

/-- A window with a name. -/
def namedWindow : Parser NamedWindow := do
  let start ← here
  let name ← identifier
  let _ ← expectKeyword .AS
  let definition ← windowDefinition rules
  return ⟨name, definition, ← spanFrom start⟩

/-- The named windows of a query. -/
def namedWindows : Parser (List NamedWindow) := do
  require .windowFunctions "WINDOW clauses" (← here)
  let _ ← advance
  commaSeparated rules.limit (namedWindow rules)

/-- Whether a query leaves out repeated rows. -/
def distinctRows : Parser Bool := do
  if ← eatKeyword .DISTINCT then
    return true
  else
    let _ ← eatKeyword .ALL
    return false

/-- A query that computes columns from tables. -/
def selectClause : Parser SelectClause := do
  let start ← expectKeyword .SELECT
  let distinct ← distinctRows
  let columns ← resultColumns rules
  let source ← afterKeyword .FROM rules.tableRef
  let filter ← afterKeyword .WHERE rules.expr
  let groupBy ← afterKeyword .GROUP do
    let _ ← expectKeyword .BY
    rules.exprs
  let having ← afterKeyword .HAVING rules.expr
  let windows ← whenever (·.atKeyword .WINDOW) (namedWindows rules)
  return ⟨distinct, columns, source, filter, groupBy.getD [], having, windows.getD [],
    ← spanFrom start⟩

/-- A query that lists its rows. -/
def valuesClause : Parser ValuesClause := do
  let start ← expectKeyword .VALUES
  let rows ← commaSeparated rules.limit (parenthesized rules.exprs)
  return ⟨rows, ← spanFrom start⟩

/-- A member of a query. -/
def queryCore : Parser QueryCore := do
  match (← current).kind with
  | .keyword .SELECT => return .select (← selectClause rules)
  | .keyword .VALUES => return .values (← valuesClause rules)
  | _ => unexpected "SELECT or VALUES"

/-- An operator that puts a further member after a query, if one is there. -/
def optionalCompoundOperator : Parser (Option CompoundOperator) := do
  if ← eatKeyword .UNION then
    if ← eatKeyword .ALL then return some .unionAll else return some .union
  else if ← eatKeyword .INTERSECT then
    return some .intersect
  else if ← eatKeyword .EXCEPT then
    return some .except
  else
    return none

/-- A further member of a query, if one is there. -/
def nextCompound : Parser (Option CompoundPart) := do
  let start ← here
  match ← optionalCompoundOperator with
  | some operator =>
    let core ← queryCore rules
    return some ⟨operator, core, ← spanFrom start⟩
  | none => return none

/-! ## Limits -/

/-- The token continues a limit. -/
def modifiesLimit (token : Token) : Bool :=
  token.isKeyword .OFFSET || token.isSymbol .comma

/-- A count of rows, perhaps with an offset: `OFFSET` puts it after the count, a comma before. -/
def limitExpressions : Parser LimitKind := do
  let first ← rules.expr
  if ← eatKeyword .OFFSET then
    return .expressions first (some (← rules.expr))
  else if ← eatSymbol .comma then
    return .expressions (← rules.expr) (some first)
  else
    return .expressions first none

/-- A limit on the rows of a query. A Dart placeholder alone stands for the whole limit. -/
def limit : Parser Limit := do
  let start ← expectKeyword .LIMIT
  match atLonePlaceholder modifiesLimit (← view) with
  | some name =>
    if ← isDrift then
      let _ ← advance
      return ⟨.placeholder name, ← spanFrom start⟩
    else
      let kind ← limitExpressions rules
      return ⟨kind, ← spanFrom start⟩
  | none =>
    let kind ← limitExpressions rules
    return ⟨kind, ← spanFrom start⟩

/-! ## Queries -/

/-- A query after its common tables. Its span starts with theirs. -/
def queryAfter (commonTables : Option WithClause) (start : Span) : Parser Query := do
  let core ← queryCore rules
  let compounds ← many rules.limit (nextCompound rules)
  let order ← optionalOrderBy rules
  let limit ← whenever (·.atKeyword .LIMIT) (limit rules)
  return ⟨commonTables, core, compounds, order, limit, ← spanFrom start⟩

/-- A query. -/
def query : Parser Query := do
  let start ← here
  let commonTables ← whenever (·.atKeyword .WITH) (withClause rules)
  queryAfter rules commonTables start

end SqlTree.Grammar
