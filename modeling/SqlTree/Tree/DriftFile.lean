import SqlTree.Tree.Schema

set_option autoImplicit false

/-!
# Drift files

A drift file lists imports, statements to run when a database is created, queries with a name, and
plain statements.

## Main definitions

* `SqlTree.DriftFile`, `SqlTree.DriftEntry` — files and their entries.
* `SqlTree.DeclaredStatement`, `SqlTree.StatementParameter` — queries with a name, and the hints
  about their variables.
-/

namespace SqlTree

/-- An import of another file. -/
structure Import where
  uri : String
  span : Span
deriving DecidableEq, Repr, Inhabited

/-- A hint about a variable of a query. -/
inductive StatementParameter where
  /-- The type of a variable. -/
  | variableType (which : Variable) (required : Bool) (type : Option TypeName) (orNull : Bool)
    (span : Span)
  /-- What a Dart placeholder stands for unless it is given. -/
  | defaultValue (name : String) (value : Expr) (span : Span)

/-- Where a hint is written. -/
def StatementParameter.span : StatementParameter → Span
  | .variableType _ _ _ _ span | .defaultValue _ _ span => span

/-- A statement with a name. -/
structure DeclaredStatement where
  name : String
  parameters : List StatementParameter
  /-- The Dart class of the results. -/
  resultClass : Option String
  statement : Statement
  span : Span

/-- An entry of a drift file. -/
inductive DriftEntry where
  | imported (entry : Import)
  | declared (entry : DeclaredStatement)
  /-- A statement to run when the database is created. -/
  | onCreate (statement : Statement) (span : Span)
  | plain (statement : Statement)

/-- Where an entry is written. -/
def DriftEntry.span : DriftEntry → Span
  | .imported entry => entry.span
  | .declared entry => entry.span
  | .onCreate _ span => span
  | .plain statement => statement.span

/-- A drift file. -/
structure DriftFile where
  entries : List DriftEntry
  span : Span

namespace DriftFile

/-- The imports of a file. -/
def imports (file : DriftFile) : List Import :=
  file.entries.filterMap fun
    | .imported entry => some entry
    | _ => none

/-- The statements with a name of a file. -/
def declaredStatements (file : DriftFile) : List DeclaredStatement :=
  file.entries.filterMap fun
    | .declared entry => some entry
    | _ => none

end DriftFile

end SqlTree
