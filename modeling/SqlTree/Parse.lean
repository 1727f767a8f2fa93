import SqlTree.Grammar.DriftFile
import SqlTree.Grammar.Knot

set_option autoImplicit false

/-!
# Reading trees from source text

The entry points of the library. Each of them reads a source in a dialect. They can also go on from
a place in the tokens of a source, and then tell where they stopped, after an error too.

## Main definitions

* `SqlTree.Statement.parse`, `SqlTree.Expr.parse`, `SqlTree.Statement.parseScript`,
  `SqlTree.DriftFile.parse` — reading a source.
* `SqlTree.Statement.parseAt`, `SqlTree.Expr.parseAt`, `SqlTree.Statement.parseScriptAt`,
  `SqlTree.DriftFile.parseAt` — going on from a place.
-/

namespace SqlTree

namespace Outcome

variable {α : Type}

/-- Where a run stopped. -/
def cursor : Outcome α → Cursor
  | .accepted _ cursor | .rejected _ cursor => cursor

/-- The value or the error that a run ended with. -/
def result : Outcome α → Except ParseError α
  | .accepted value _ => .ok value
  | .rejected error _ => .error error

end Outcome

/-- Reads a statement, perhaps with a semicolon after it, up to the end of input. -/
def Statement.parseAt (dialect : Dialect) (cursor : Cursor) : Outcome Statement :=
  Grammar.bounded dialect Grammar.wholeStatement cursor

/-- Reads an expression up to the end of input. -/
def Expr.parseAt (dialect : Dialect) (cursor : Cursor) : Outcome Expr :=
  Grammar.bounded dialect Grammar.wholeExpression cursor

/-- Reads statements with semicolons between them up to the end of input. -/
def Statement.parseScriptAt (dialect : Dialect) (cursor : Cursor) : Outcome (List Statement) :=
  Grammar.bounded dialect Grammar.script cursor

/-- Reads the entries of a drift file up to the end of input. -/
def DriftFile.parseAt (dialect : Dialect) (cursor : Cursor) : Outcome DriftFile :=
  Grammar.bounded dialect Grammar.driftFile cursor

/-- The place before the first token of a source, in a dialect. -/
def Dialect.start (dialect : Dialect) (source : String) : Cursor :=
  Cursor.ofSource dialect.isDrift source

/-- Reads a source that is one statement. -/
def Statement.parse (dialect : Dialect) (source : String) : Except ParseError Statement :=
  (Statement.parseAt dialect (dialect.start source)).result

/-- Reads a source that is one expression. -/
def Expr.parse (dialect : Dialect) (source : String) : Except ParseError Expr :=
  (Expr.parseAt dialect (dialect.start source)).result

/-- Reads a source of statements with semicolons between them. -/
def Statement.parseScript (dialect : Dialect) (source : String) :
    Except ParseError (List Statement) :=
  (Statement.parseScriptAt dialect (dialect.start source)).result

/-- Reads a source that is a drift file. -/
def DriftFile.parse (dialect : Dialect) (source : String) : Except ParseError DriftFile :=
  (DriftFile.parseAt dialect (dialect.start source)).result

end SqlTree
