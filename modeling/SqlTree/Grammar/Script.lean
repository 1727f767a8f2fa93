import SqlTree.Grammar.Schema

set_option autoImplicit false

/-!
# Parsing whole sources

A source holds one statement, one expression, or any number of statements with semicolons between
them.

## Main definitions

* `SqlTree.Grammar.wholeStatement`, `SqlTree.Grammar.wholeExpression` — a source that holds one
  thing only.
* `SqlTree.Grammar.script` — a source of statements.
-/

namespace SqlTree.Grammar

open SqlTree.Parser

variable (rules : Rules)

/-- A statement, perhaps with a semicolon after it, and nothing else. -/
def wholeStatement : Parser Statement := do
  let statement ← statement rules
  let _ ← eatSymbol .semicolon
  expectEnd "end of statement"
  return statement

/-- An expression and nothing else. -/
def wholeExpression : Parser Expr := do
  let expr ← rules.expr
  expectEnd "end of expression"
  return expr

/-- The semicolon that an entry needs after it unless the input ends there. -/
def entryEnd : Parser Unit := do
  if ← sees (·.current.isEnd) then
    return ()
  else
    let _ ← expectSymbol .semicolon

/-- The next entry of a source, after any number of semicolons; none at the end of input. -/
def nextEntry {α : Type} (entry : Parser α) : Parser (Option α) := do
  let _ ← many rules.limit (whenever (·.atSymbol .semicolon) advance)
  if ← sees (·.current.isEnd) then
    return none
  else
    let value ← entry
    entryEnd
    return some value

/-- The entries of a source, with semicolons between them, up to the end of input. -/
def entries {α : Type} (entry : Parser α) : Parser (List α) :=
  many rules.limit (nextEntry rules entry)

/-- Statements with semicolons between them, up to the end of input. -/
def script : Parser (List Statement) :=
  entries rules (statement rules)

end SqlTree.Grammar
