import SqlTree.Parser
import SqlTree.Tree.Expr

set_option autoImplicit false

/-!
# The parsers that call each other

Expressions hold queries, queries hold table references, and both of them hold expressions again.
The parsers of the parts are written over the parsers of the wholes, which are a parameter, and the
circle is closed in `SqlTree.Grammar.Knot`.

## Main definitions

* `SqlTree.Grammar.Rules` — the parsers of expressions, queries and table references, and the bound
  on the number of repetitions of a loop.
-/

namespace SqlTree.Grammar

/-- The parsers that the parsers of parts call. -/
structure Rules where
  /-- The bound on the number of repetitions of a loop. -/
  limit : Nat
  /-- An expression whose operators outside all parentheses have at least this power. -/
  operators : Nat → Parser Expr
  /-- A query. -/
  query : Parser Query
  /-- A table reference with all its joins. -/
  tableRef : Parser TableRef

namespace Rules

/-- The rules that reach the bound at once. -/
def exhausted (limit : Nat) : Rules :=
  ⟨limit, fun _ => Parser.exhausted, Parser.exhausted, Parser.exhausted⟩

/-- Any expression. -/
def expr (rules : Rules) : Parser Expr :=
  rules.operators 0

/-- One or more expressions with commas between them. -/
def exprs (rules : Rules) : Parser (List Expr) :=
  Parser.commaSeparated rules.limit rules.expr

/-- One or more names with commas between them. -/
def identifiers (rules : Rules) : Parser (List String) :=
  Parser.commaSeparated rules.limit Parser.identifier

/-- One or more names between parentheses. -/
def columnNames (rules : Rules) : Parser (List String) :=
  Parser.parenthesized rules.identifiers

/-- One or more names between parentheses, or nothing. -/
def optionalColumnNames (rules : Rules) : Parser (List String) := do
  return (← Parser.whenever (·.atSymbol .leftParen) rules.columnNames).getD []

end Rules

/-! ## Names with a schema -/

open SqlTree.Parser

/-- A name, perhaps with a schema before it. -/
def qualifiedName : Parser (Option String × String) := do
  let first ← identifier
  if ← eatSymbol .dot then
    return (some first, ← identifier)
  else
    return (none, first)

/-- The name that something is given after `AS`. -/
def asName : Parser (Option String) :=
  afterKeyword .AS identifier

/-- The name that something is given, after `AS` or bare. A bare name is no keyword. -/
def optionalAlias : Parser (Option String) := do
  if ← eatKeyword .AS then
    return some (← identifier)
  else
    match (← current).kind with
    | .identifier name =>
      let _ ← advance
      return some name
    | _ => return none

end SqlTree.Grammar
