import SqlTree.Grammar.Constraint
import SqlTree.Grammar.VirtualTable

set_option autoImplicit false

/-!
# Parsing statements that create things

## Main definitions

* `SqlTree.Grammar.createTable`, `SqlTree.Grammar.createVirtualTable`, `SqlTree.Grammar.createView`,
  `SqlTree.Grammar.createTrigger`, `SqlTree.Grammar.createIndex` — the creations, after `CREATE` and
  `TEMP`.
* `SqlTree.Grammar.statement` — any statement.
-/

namespace SqlTree.Grammar

open SqlTree.Parser

variable (rules : Rules)

/-- Whether nothing happens to a thing that is there already. -/
def ifNotExists : Parser Bool := do
  if ← eatKeyword .IF then
    expectKeywords [.NOT, .EXISTS]
    return true
  else
    return false

/-- The Dart class of the rows of a table or view. -/
def rowClass : Parser RowClass := do
  let start ← here
  require .driftExtensions "row class annotations" start
  let existing := (← advance).isKeyword .WITH
  let name ← identifier
  return ⟨name, existing, ← spanFrom start⟩

/-! ## Tables -/

/-- The members of a table that have been read, the last ones first. -/
structure TableMembers where
  columns : List ColumnDefinition
  constraints : List TableConstraint

/-- A further member of a table. No column follows a constraint. -/
def tableMember (members : TableMembers) : Parser TableMembers := do
  if ← sees atTableConstraint then
    return { members with constraints := (← tableConstraint rules) :: members.constraints }
  else if members.constraints.isEmpty then
    return { members with columns := (← columnDefinition rules) :: members.columns }
  else
    unexpected "table constraint"

/-- The members of a table with commas between them. -/
def tableMembers : Parser TableMembers := do
  let first ← tableMember rules ⟨[], []⟩
  iterate
    (fun members => do
      if ← eatSymbol .comma then
        return some (← tableMember rules members)
      else
        return none)
    rules.limit first

/-- An option of a table. -/
inductive TableOption where
  | withoutRowid | strict
deriving DecidableEq

/-- The next token is the word `ROWID`, which is no keyword. -/
def atRowid (view : View) : Bool :=
  match view.current.kind with
  | .identifier word => equalIgnoringCase word "rowid"
  | _ => false

/-- An option of a table. -/
def tableOption : Parser TableOption := do
  if ← eatKeyword .WITHOUT then
    if ← sees atRowid then
      let _ ← advance
      return .withoutRowid
    else
      unexpected "ROWID"
  else if ← sees (·.atKeyword .STRICT) then
    require .strictTables "STRICT tables" (← here)
    let _ ← advance
    return .strict
  else
    unexpected "WITHOUT ROWID or STRICT"

/-- The options of a table, if any. -/
def tableOptions : Parser (List TableOption) := do
  let options ← whenever (·.atAnyKeyword [.WITHOUT, .STRICT])
    (commaSeparated rules.limit tableOption)
  return options.getD []

/-- The columns, constraints and options of a table. -/
def tableDefinition : Parser TableDefinition := do
  let members ← parenthesized (tableMembers rules)
  if members.columns.isEmpty then
    unexpected "column definition"
  else
    let options ← tableOptions rules
    let rowClass ← whenever (·.atAnyKeyword [.AS, .WITH]) rowClass
    return ⟨members.columns.reverse, members.constraints.reverse, options.contains .withoutRowid,
      options.contains .strict, rowClass⟩

/-- The creation of a table. -/
def createTable (start : Span) (temporary : Bool) : Parser CreateTable := do
  let _ ← expectKeyword .TABLE
  let ifNotExists ← ifNotExists
  let (schema, name) ← qualifiedName
  if ← eatKeyword .AS then
    let rows ← rules.query
    return ⟨⟨[], [], false, false, none⟩, temporary, ifNotExists, schema, name, some rows,
      ← spanFrom start⟩
  else
    let definition ← tableDefinition rules
    return ⟨definition, temporary, ifNotExists, schema, name, none, ← spanFrom start⟩

/-- The creation of a virtual table. -/
def createVirtualTable (start : Span) : Parser CreateVirtualTable := do
  expectKeywords [.VIRTUAL, .TABLE]
  let ifNotExists ← ifNotExists
  let (schema, name) ← qualifiedName
  let _ ← expectKeyword .USING
  let module ← identifier
  let arguments ← whenever (·.atSymbol .leftParen) (rawArguments rules.limit)
  let arguments := arguments.getD []
  return ⟨ifNotExists, schema, name, module, arguments, recognize module arguments,
    ← spanFrom start⟩

/-! ## Views, triggers and indexes -/

/-- The next tokens start the class of the rows of a view, and not its query. -/
def atViewRowClass (view : View) : Bool :=
  view.atKeyword .WITH ||
    view.atKeyword .AS && view.second.kind.isIdentifierLike && view.third.isKeyword .AS

/-- The creation of a view. -/
def createView (start : Span) (temporary : Bool) : Parser CreateView := do
  let _ ← expectKeyword .VIEW
  let ifNotExists ← ifNotExists
  let (schema, name) ← qualifiedName
  let columns ← rules.optionalColumnNames
  let rowClass ← whenever atViewRowClass rowClass
  let _ ← expectKeyword .AS
  let query ← rules.query
  return ⟨temporary, ifNotExists, schema, name, columns, rowClass, query, ← spanFrom start⟩

/-- When a trigger runs, if that is stated. -/
def triggerTiming : Parser (Option TriggerTiming) := do
  if ← eatKeyword .BEFORE then
    return some .before
  else if ← eatKeyword .AFTER then
    return some .after
  else if ← eatKeyword .INSTEAD then
    let _ ← expectKeyword .OF
    return some .insteadOf
  else
    return none

/-- The change that a trigger answers. -/
def triggerEvent : Parser TriggerEvent := do
  if ← eatKeyword .DELETE then
    return .delete
  else if ← eatKeyword .INSERT then
    return .insert
  else if ← eatKeyword .UPDATE then
    return .update ((← afterKeyword .OF rules.identifiers).getD [])
  else
    unexpected "DELETE, INSERT or UPDATE"

/-- Whether a trigger states that it runs for each row. -/
def forEachRow : Parser Bool := do
  if ← eatKeyword .FOR then
    expectKeywords [.EACH, .ROW]
    return true
  else
    return false

/-- A statement of a trigger with the semicolon after it. -/
def triggerStatement : Parser Statement := do
  let statement ← dataStatement rules "SELECT, INSERT, UPDATE or DELETE"
  let _ ← expectSymbol .semicolon
  return .data statement

/-- The statements of a trigger, with the keywords around them. -/
def triggerBody : Parser (List Statement) := do
  let _ ← expectKeyword .BEGIN
  let first ← triggerStatement rules
  let rest ← many rules.limit do
    if ← eatKeyword .END then
      return none
    else
      return some (← triggerStatement rules)
  return first :: rest

/-- The creation of a trigger. -/
def createTrigger (start : Span) (temporary : Bool) : Parser CreateTrigger := do
  let _ ← expectKeyword .TRIGGER
  let ifNotExists ← ifNotExists
  let (schema, name) ← qualifiedName
  let timing ← triggerTiming
  let event ← triggerEvent rules
  let _ ← expectKeyword .ON
  let table ← identifier
  let forEachRow ← forEachRow
  let condition ← afterKeyword .WHEN rules.expr
  let body ← triggerBody rules
  return ⟨temporary, ifNotExists, schema, name, timing, event, table, forEachRow, condition, body,
    ← spanFrom start⟩

/-- The creation of an index. -/
def createIndex (start : Span) : Parser CreateIndex := do
  let unique ← eatKeyword .UNIQUE
  let _ ← expectKeyword .INDEX
  let ifNotExists ← ifNotExists
  let (schema, name) ← qualifiedName
  let _ ← expectKeyword .ON
  let table ← identifier
  let columns ← parenthesized (indexedColumns rules)
  let filter ← afterKeyword .WHERE rules.expr
  return ⟨unique, ifNotExists, schema, name, table, columns, filter, ← spanFrom start⟩

/-! ## Statements -/

/-- A statement that creates something. -/
def creation : Parser Statement := do
  let start ← expectKeyword .CREATE
  let place ← here
  let temporary ← if ← eatKeyword .TEMP then pure true else eatKeyword .TEMPORARY
  match (← current).keyword? with
  | some .TABLE => return .createTable (← createTable rules start temporary)
  | some .VIEW => return .createView (← createView rules start temporary)
  | some .TRIGGER => return .createTrigger (← createTrigger rules start temporary)
  | some .VIRTUAL =>
    if temporary then
      invalid "virtual tables cannot be temporary" place
    else
      return .createVirtualTable (← createVirtualTable rules start)
  | some .UNIQUE | some .INDEX =>
    if temporary then
      invalid "indexes cannot be temporary" place
    else
      return .createIndex (← createIndex rules start)
  | _ => unexpected "TABLE, VIRTUAL TABLE, VIEW, TRIGGER or INDEX"

/-- A statement without a semicolon after it. -/
def statement : Parser Statement := do
  if ← sees (·.atKeyword .CREATE) then
    creation rules
  else
    return .data (← dataStatement rules "statement")

end SqlTree.Grammar
