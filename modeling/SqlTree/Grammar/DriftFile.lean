import SqlTree.Grammar.Script
import SqlTree.Tree.DriftFile

set_option autoImplicit false

/-!
# Parsing drift files

## Main definitions

* `SqlTree.Grammar.declaredStatement`, `SqlTree.Grammar.driftEntry` — the entries of a file.
* `SqlTree.Grammar.driftFile` — a whole file.
-/

namespace SqlTree.Grammar

open SqlTree.Parser

variable (rules : Rules)

/-! ## Hints about variables -/

/-- What a Dart placeholder stands for unless it is given, after its name is known. -/
def defaultValue (name : String) : Parser StatementParameter := do
  let start ← here
  let _ ← advance
  let _ ← advance
  let value ← rules.expr
  return .defaultValue name value (← spanFrom start)

/-- The type of a variable, and whether it may be null; this can only be stated with the type. -/
def variableType : Parser (Option TypeName × Bool) := do
  if ← eatKeyword .AS then
    let type ← typeName rules.limit
    if ← sees (·.atKeywords .OR .NULL) then
      let _ ← advance
      let _ ← advance
      return (some type, true)
    else
      return (some type, false)
  else
    return (none, false)

/-- A variable with what is stated about it. -/
def typedVariable : Parser StatementParameter := do
  let start ← here
  let required ← eatKeyword .REQUIRED
  match (← current).kind with
  | .variable which =>
    let _ ← advance
    let (type, orNull) ← variableType rules
    return .variableType which required type orNull (← spanFrom start)
  | _ => unexpected "variable"

/-- The placeholder that gets a default value here. -/
def atDefaultValue (view : View) : Option String :=
  if view.second.isSymbol .eq then view.dollarName? else none

/-- A hint about a variable or placeholder. -/
def statementParameter : Parser StatementParameter := do
  match atDefaultValue (← view) with
  | some name => defaultValue rules name
  | none => typedVariable rules

/-- The hints after the name of a statement, if any. -/
def statementParameters : Parser (List StatementParameter) := do
  let parameters ← whenever (·.atSymbol .leftParen) (parenthesized do
    if ← sees (·.atSymbol .rightParen) then
      return []
    else
      commaSeparated rules.limit (statementParameter rules))
  return parameters.getD []

/-! ## Entries -/

/-- A statement with a name. -/
def declaredStatement : Parser DeclaredStatement := do
  let start ← here
  let name ← identifier
  let parameters ← statementParameters rules
  let resultClass ← asName
  let _ ← expectSymbol .colon
  let statement ← statement rules
  return ⟨name, parameters, resultClass, statement, ← spanFrom start⟩

/-- The next tokens start a statement with a name. -/
def atDeclaredStatement (view : View) : Bool :=
  view.atIdentifier &&
    (view.second.isSymbol .leftParen || view.second.isSymbol .colon || view.second.isKeyword .AS)

/-- The file that is imported here. -/
def atImport (view : View) : Option String :=
  match view.current.kind, view.second.kind with
  | .keyword .IMPORT, .string uri => some uri
  | _, _ => none

/-- The next token marks a statement to run when the database is created. -/
def atOnCreate (view : View) : Bool :=
  match view.current.kind with
  | .variable (.named .at name) => name == "create"
  | _ => false

/-- An entry of a drift file. -/
def driftEntry : Parser DriftEntry := do
  let view ← view
  let start := view.current.span
  match atImport view with
  | some uri =>
    let _ ← advance
    let _ ← advance
    return .imported ⟨uri, ← spanFrom start⟩
  | none =>
    if atOnCreate view then
      let _ ← advance
      let _ ← expectSymbol .colon
      let statement ← statement rules
      return .onCreate statement (← spanFrom start)
    else if atDeclaredStatement view then
      return .declared (← declaredStatement rules)
    else
      return .plain (← statement rules)

/-! ## Files -/

/-- The span of the entries of a file; without entries, the empty span where the file starts. -/
def entriesSpan (start : Span) (list : List DriftEntry) : Span :=
  match list.head?, list.getLast? with
  | some first, some last => first.span.merge last.span
  | _, _ => ⟨start.start, start.start, start.line, start.column⟩

/-- A drift file. -/
def driftFile : Parser DriftFile := do
  let start ← here
  require .driftExtensions "drift files" start
  let list ← entries rules (driftEntry rules)
  return ⟨list, entriesSpan start list⟩

end SqlTree.Grammar
