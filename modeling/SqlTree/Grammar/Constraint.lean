import SqlTree.Grammar.Change
import SqlTree.Tree.Schema

set_option autoImplicit false

/-!
# Parsing columns and constraints

## Main definitions

* `SqlTree.Grammar.foreignKey` — what a foreign key refers to.
* `SqlTree.Grammar.columnDefinition` — a column with its constraints.
* `SqlTree.Grammar.tableConstraint` — a constraint of a table.
-/

namespace SqlTree.Grammar

open SqlTree.Parser

variable (rules : Rules)

/-! ## Parts of several constraints -/

/-- How conflicts with a constraint are resolved, if that is stated. -/
def optionalOnConflict : Parser (Option Conflict) :=
  whenever (·.atKeywords .ON .CONFLICT) do
    let _ ← advance
    let _ ← advance
    conflict

/-- The name of a constraint, if it has one. -/
def constraintName : Parser (Option String) :=
  afterKeyword .CONSTRAINT identifier

/-! ## Foreign keys -/

/-- What happens to the rows that refer to a changed row. -/
def referentialAction : Parser ReferentialAction := do
  if ← eatKeyword .SET then
    if ← eatKeyword .NULL then
      return .setNull
    else
      let _ ← expectKeyword .DEFAULT
      return .setDefault
  else if ← eatKeyword .CASCADE then
    return .cascade
  else if ← eatKeyword .RESTRICT then
    return .restrict
  else if ← eatKeyword .NO then
    let _ ← expectKeyword .ACTION
    return .noAction
  else
    unexpected "SET NULL, SET DEFAULT, CASCADE, RESTRICT or NO ACTION"

/-- A change of the referred table. -/
def referentialEvent : Parser ReferentialEvent := do
  if ← eatKeyword .DELETE then
    return .delete
  else
    let _ ← expectKeyword .UPDATE
    return .update

/-- The next token starts a referential action, and not the resolution of conflicts. -/
def atReferentialAction (view : View) : Bool :=
  view.atKeyword .ON && !view.second.isKeyword .CONFLICT

/-- A change of the referred table with the action that answers it, if one is there. -/
def nextReferentialAction : Parser (Option (ReferentialEvent × ReferentialAction)) :=
  whenever atReferentialAction do
    let _ ← advance
    let event ← referentialEvent
    return (event, ← referentialAction)

/-- The next tokens state when a foreign key is checked. -/
def atDeferrable (view : View) : Bool :=
  view.atKeyword .DEFERRABLE || view.atKeywords .NOT .DEFERRABLE

/-- When a foreign key is checked. -/
def deferrable : Parser Deferrable := do
  let negated ← eatKeyword .NOT
  let _ ← expectKeyword .DEFERRABLE
  let initially ← afterKeyword .INITIALLY do
    if ← eatKeyword .DEFERRED then
      return true
    else
      let _ ← expectKeyword .IMMEDIATE
      return false
  return ⟨negated, initially⟩

/-- What a foreign key refers to. -/
def foreignKey : Parser ForeignKey := do
  let start ← expectKeyword .REFERENCES
  let table ← identifier
  let columns ← rules.optionalColumnNames
  let actions ← many rules.limit nextReferentialAction
  let deferrable ← whenever atDeferrable deferrable
  return ⟨table, columns, actions, deferrable, ← spanFrom start⟩

/-! ## Constraints of columns -/

/-- A primary key of one column. -/
def columnPrimaryKey : Parser ColumnConstraintKind := do
  let _ ← advance
  let _ ← expectKeyword .KEY
  let direction ← direction
  let onConflict ← optionalOnConflict
  let autoincrement ← eatKeyword .AUTOINCREMENT
  return .primaryKey direction onConflict autoincrement

/-- A column that is never null. -/
def notNull : Parser ColumnConstraintKind := do
  let _ ← advance
  let _ ← expectKeyword .NULL
  return .notNull (← optionalOnConflict)

/-- Whether a generated column is stored, if that is stated. -/
def generatedStorage : Parser (Option GeneratedStorage) := do
  if ← eatKeyword .STORED then
    return some .stored
  else if ← eatKeyword .VIRTUAL then
    return some .virtual
  else
    return none

/-- The expression that a column is generated by, after `AS`. -/
def generatedBy (start : Span) (always : Bool) : Parser ColumnConstraintKind := do
  require .generatedColumns "generated columns" start
  let expr ← parenthesized rules.expr
  return .generated expr (← generatedStorage) always

/-- The name that a column has in Dart. -/
def dartName : Parser ColumnConstraintKind := do
  require .driftExtensions "Dart column names" (← here)
  let _ ← advance
  return .dartName (← identifier)

/-- The key that a column has in JSON objects. -/
def jsonKey : Parser ColumnConstraintKind := do
  require .driftExtensions "JSON KEY" (← here)
  let _ ← advance
  let _ ← advance
  return .jsonKey (← identifier)

/-- What a constraint of a column demands, if the next token starts one. The constraint itself may
have started with its name. -/
def columnConstraintKind (start : Span) : Parser (Option ColumnConstraintKind) := do
  let view ← view
  match view.current.keyword? with
  | some .PRIMARY => return some (← columnPrimaryKey)
  | some .NOT => return some (← notNull)
  | some .NULL =>
    let _ ← advance
    return some .null
  | some .UNIQUE =>
    let _ ← advance
    return some (.unique (← optionalOnConflict))
  | some .CHECK =>
    let _ ← advance
    return some (.check (← parenthesized rules.expr))
  | some .DEFAULT =>
    let _ ← advance
    return some (.default (← rules.operators (collatePower + 1)))
  | some .COLLATE =>
    let _ ← advance
    return some (.collate (← identifier))
  | some .REFERENCES => return some (.foreignKey (← foreignKey rules))
  | some .GENERATED =>
    if view.second.isKeyword .ALWAYS then
      let _ ← advance
      let _ ← advance
      let _ ← expectKeyword .AS
      return some (← generatedBy rules start true)
    else
      return none
  | some .AS =>
    if view.second.isSymbol .leftParen then
      let _ ← advance
      return some (← generatedBy rules start false)
    else
      return some (← dartName)
  | some .MAPPED =>
    if view.second.isKeyword .BY then return some (.mappedBy (← mappedBy)) else return none
  | some .JSON =>
    if view.second.isKeyword .KEY then return some (← jsonKey) else return none
  | _ => return none

/-- A constraint of a column, if one is there. A name needs a constraint after it. -/
def nextColumnConstraint : Parser (Option ColumnConstraint) := do
  let start ← here
  let name ← constraintName
  match ← columnConstraintKind rules start with
  | some kind => return some ⟨name, kind, ← spanFrom start⟩
  | none => if name.isSome then unexpected "column constraint" else return none

/-- The definition of a column: its name, perhaps its type, and its constraints. -/
def columnDefinition : Parser ColumnDefinition := do
  let start ← here
  let name ← identifier
  let type ← whenever atTypeWord (typeName rules.limit)
  let constraints ← many rules.limit (nextColumnConstraint rules)
  return ⟨name, type, constraints, ← spanFrom start⟩

/-! ## Constraints of tables -/

/-- The next token starts a constraint of a table. -/
def atTableConstraint (view : View) : Bool :=
  view.atAnyKeyword [.CONSTRAINT, .PRIMARY, .UNIQUE, .CHECK, .FOREIGN]

/-- What a constraint of a table demands. -/
def tableConstraintKind : Parser TableConstraintKind := do
  if ← eatKeyword .PRIMARY then
    let _ ← expectKeyword .KEY
    let columns ← parenthesized (indexedColumns rules)
    return .primaryKey columns (← optionalOnConflict)
  else if ← eatKeyword .UNIQUE then
    let columns ← parenthesized (indexedColumns rules)
    return .unique columns (← optionalOnConflict)
  else if ← eatKeyword .CHECK then
    return .check (← parenthesized rules.expr)
  else if ← eatKeyword .FOREIGN then
    let _ ← expectKeyword .KEY
    let columns ← rules.columnNames
    return .foreignKey columns (← foreignKey rules)
  else
    unexpected "table constraint"

/-- A constraint of a table. -/
def tableConstraint : Parser TableConstraint := do
  let start ← here
  let name ← constraintName
  let kind ← tableConstraintKind rules
  return ⟨name, kind, ← spanFrom start⟩

end SqlTree.Grammar
