import SqlTree.Render.Schema
import SqlTree.Tree.DriftFile

set_option autoImplicit false

/-!
# Writing drift files

## Main definitions

* `SqlTree.DriftFile.pieces`, `SqlTree.DriftFile.render` — the pieces and the text of a file; every
  entry ends with a semicolon and stands on a line of its own.
-/

namespace SqlTree

open Render

/-- The pieces of an import. -/
def Import.pieces (entry : Import) : List Piece :=
  [.verbatim "import", .blank, .literal (.string entry.uri)]

/-- The pieces of a hint about a variable. -/
def StatementParameter.pieces : StatementParameter → List Piece
  | .variableType which required type orNull _ =>
    wordsIf required [.REQUIRED] ++ .variable which ::
      optional type fun type =>
        .blank :: .keyword .AS :: .blank :: type.pieces ++
          suffix (if orNull then some [.OR, .NULL] else none)
  | .defaultValue name value _ =>
    .variable (.named .dollar name) :: .blank :: .symbol .eq :: .blank :: value.pieces

/-- The pieces of a statement with a name. -/
def DeclaredStatement.pieces (declared : DeclaredStatement) : List Piece :=
  .name declared.name ::
    (if declared.parameters.isEmpty then []
      else parens (commas (declared.parameters.map StatementParameter.pieces))) ++
    aliased declared.resultClass ++ .symbol .colon :: .blank :: declared.statement.pieces

/-- The pieces of an entry of a drift file. -/
def DriftEntry.pieces : DriftEntry → List Piece
  | .imported entry => entry.pieces
  | .declared entry => entry.pieces
  | .onCreate statement _ =>
    .variable (.named .at "create") :: .symbol .colon :: .blank :: statement.pieces
  | .plain statement => statement.pieces

/-- The pieces of a drift file. -/
def DriftFile.pieces (file : DriftFile) : List Piece :=
  file.entries.flatMap fun entry => entry.pieces ++ [.symbol .semicolon, .lineEnd]

/-- The text of a drift file. -/
def DriftFile.render (file : DriftFile) : String :=
  text file.pieces

end SqlTree
