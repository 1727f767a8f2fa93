import SqlTree.Render.Change
import SqlTree.Tree.Schema

set_option autoImplicit false

/-!
# Writing statements that create things

## Main definitions

* `SqlTree.ColumnConstraint.pieces`, `SqlTree.TableConstraint.pieces` — the pieces of constraints.
* `SqlTree.Statement.pieces`, `SqlTree.Statement.render` — the pieces and the text of statements.
-/

namespace SqlTree

open Render

/-! ## Constraints -/

/-- The pieces of when a foreign key is checked. -/
def Deferrable.pieces (deferrable : Deferrable) : List Piece :=
  wordsIf deferrable.negated [.NOT] ++ .keyword .DEFERRABLE ::
    match deferrable.initiallyDeferred with
    | some true => .blank :: words [.INITIALLY, .DEFERRED]
    | some false => .blank :: words [.INITIALLY, .IMMEDIATE]
    | none => []

/-- The pieces of what a foreign key refers to. -/
def ForeignKey.pieces (key : ForeignKey) : List Piece :=
  .keyword .REFERENCES :: .blank :: .name key.table ::
    (if key.columns.isEmpty then [] else .blank :: parens (names key.columns)) ++
    key.actions.flatMap (fun (event, action) =>
      .blank :: words ([.ON, event.keyword] ++ action.keywords)) ++
    optional key.deferrable fun deferrable => .blank :: deferrable.pieces

/-- The pieces of a conflict resolution, after a blank. -/
def Render.onConflict (conflict : Option Conflict) : List Piece :=
  suffix (conflict.map fun conflict => [.ON, .CONFLICT, conflict.keyword])

/-- The pieces of the name of a constraint, before a blank. -/
def Render.constraintName (name : Option String) : List Piece :=
  optional name fun name => [.keyword .CONSTRAINT, .blank, .name name, .blank]

/-- The pieces of what a constraint of a column demands. -/
def ColumnConstraintKind.pieces : ColumnConstraintKind → List Piece
  | .primaryKey direction conflict autoincrement =>
    words [.PRIMARY, .KEY] ++ suffix (direction.map fun direction => [direction.keyword]) ++
      onConflict conflict ++ suffix (if autoincrement then some [.AUTOINCREMENT] else none)
  | .notNull conflict => words [.NOT, .NULL] ++ onConflict conflict
  | .null => words [.NULL]
  | .unique conflict => words [.UNIQUE] ++ onConflict conflict
  | .check expr => .keyword .CHECK :: .blank :: parens expr.pieces
  | .default expr => .keyword .DEFAULT :: .blank :: expr.pieces
  | .collate collation => [.keyword .COLLATE, .blank, .name collation]
  | .foreignKey key => key.pieces
  | .generated expr storage always =>
    wordsIf always [.GENERATED, .ALWAYS] ++ .keyword .AS :: .blank :: parens expr.pieces ++
      suffix (storage.map fun
        | .stored => [.STORED]
        | .virtual => [.VIRTUAL])
  | .mappedBy code => words [.MAPPED, .BY] ++ [.blank, .dart code]
  | .jsonKey key => words [.JSON, .KEY] ++ [.blank, .name key]
  | .dartName name => [.keyword .AS, .blank, .name name]

/-- The pieces of a constraint of a column. -/
def ColumnConstraint.pieces (constraint : ColumnConstraint) : List Piece :=
  constraintName constraint.name ++ constraint.kind.pieces

/-- The pieces of the definition of a column. -/
def ColumnDefinition.pieces (column : ColumnDefinition) : List Piece :=
  .name column.name :: optional column.type (fun type => .blank :: type.pieces) ++
    column.constraints.flatMap fun constraint => .blank :: constraint.pieces

/-- The pieces of what a constraint of a table demands. -/
def TableConstraintKind.pieces : TableConstraintKind → List Piece
  | .primaryKey columns conflict =>
    words [.PRIMARY, .KEY] ++ .blank :: parens (commas (columns.map IndexedColumn.pieces)) ++
      onConflict conflict
  | .unique columns conflict =>
    .keyword .UNIQUE :: .blank :: parens (commas (columns.map IndexedColumn.pieces)) ++
      onConflict conflict
  | .check expr => .keyword .CHECK :: .blank :: parens expr.pieces
  | .foreignKey columns key =>
    words [.FOREIGN, .KEY] ++ .blank :: parens (names columns) ++ .blank :: key.pieces

/-- The pieces of a constraint of a table. -/
def TableConstraint.pieces (constraint : TableConstraint) : List Piece :=
  constraintName constraint.name ++ constraint.kind.pieces

/-! ## Statements -/

/-- The words that a creation starts with, before a blank. -/
def Render.creation (temporary : Bool) (object : List Keyword) (ifNotExists : Bool) :
    List Piece :=
  wordsIf true [.CREATE] ++ wordsIf temporary [.TEMP] ++ wordsIf true object ++
    wordsIf ifNotExists [.IF, .NOT, .EXISTS]

/-- The pieces of the Dart class of rows. -/
def RowClass.pieces (rowClass : RowClass) : List Piece :=
  [.keyword (if rowClass.existing then .WITH else .AS), .blank, .name rowClass.name]

/-- The pieces of the definition of a table. -/
def TableDefinition.pieces (definition : TableDefinition) : List Piece :=
  let members :=
    commas (definition.columns.map ColumnDefinition.pieces) ++
      definition.constraints.flatMap fun constraint =>
        .symbol .comma :: .blank :: constraint.pieces
  let options :=
    (if definition.withoutRowid then [[.keyword .WITHOUT, .blank, .name "ROWID"]] else []) ++
      if definition.strict then [[.keyword .STRICT]] else []
  parens members ++ (if options.isEmpty then [] else .blank :: commas options) ++
    optional definition.rowClass fun rowClass => .blank :: rowClass.pieces

/-- The pieces of the creation of a table. -/
def CreateTable.pieces (table : CreateTable) : List Piece :=
  creation table.temporary [.TABLE] table.ifNotExists ++ qualified table.schema table.name ++
    match table.asSelect with
    | some rows => .blank :: .keyword .AS :: .blank :: rows.pieces
    | none => .blank :: table.toTableDefinition.pieces

/-- The pieces of the creation of a virtual table. -/
def CreateVirtualTable.pieces (table : CreateVirtualTable) : List Piece :=
  creation false [.VIRTUAL, .TABLE] table.ifNotExists ++ qualified table.schema table.name ++
    .blank :: .keyword .USING :: .blank :: .name table.module ::
    if table.arguments.isEmpty then []
    else parens (commas (table.arguments.map fun argument => [.verbatim argument]))

/-- The pieces of the creation of a view. -/
def CreateView.pieces (view : CreateView) : List Piece :=
  creation view.temporary [.VIEW] view.ifNotExists ++ qualified view.schema view.name ++
    (if view.columns.isEmpty then [] else .blank :: parens (names view.columns)) ++
    optional view.rowClass (fun rowClass => .blank :: rowClass.pieces) ++
    .blank :: .keyword .AS :: .blank :: view.query.pieces

/-- The pieces of the change that a trigger answers. -/
def TriggerEvent.pieces : TriggerEvent → List Piece
  | .delete => words [.DELETE]
  | .insert => words [.INSERT]
  | .update columns =>
    if columns.isEmpty then words [.UPDATE]
    else words [.UPDATE, .OF] ++ .blank :: names columns

/-- The pieces of the creation of an index. -/
def CreateIndex.pieces (index : CreateIndex) : List Piece :=
  creation false (if index.unique then [.UNIQUE, .INDEX] else [.INDEX]) index.ifNotExists ++
    qualified index.schema index.name ++
    [.blank, .keyword .ON, .blank, .name index.table, .blank] ++
    parens (commas (index.columns.map IndexedColumn.pieces)) ++ whereClause index.filter

mutual

/-- The pieces of the creation of a trigger. -/
def CreateTrigger.pieces : CreateTrigger → List Piece
  | ⟨temporary, ifNotExists, schema, name, timing, event, table, forEachRow, condition, body, _⟩ =>
    creation temporary [.TRIGGER] ifNotExists ++ qualified schema name ++
      suffix (timing.map TriggerTiming.keywords) ++
      .blank :: event.pieces ++ [.blank, .keyword .ON, .blank, .name table] ++
      suffix (if forEachRow then some [.FOR, .EACH, .ROW] else none) ++
      optional condition
        (fun condition => .blank :: .keyword .WHEN :: .blank :: condition.pieces) ++
      .blank :: .keyword .BEGIN :: Statement.bodyPieces body ++ [.blank, .keyword .END]

/-- The pieces of the statements of a trigger. -/
def Statement.bodyPieces : List Statement → List Piece
  | [] => []
  | statement :: rest =>
    .blank :: statement.pieces ++ .symbol .semicolon :: Statement.bodyPieces rest

/-- The pieces of a statement. -/
def Statement.pieces : Statement → List Piece
  | .data statement => statement.pieces
  | .createTable statement => statement.pieces
  | .createVirtualTable statement => statement.pieces
  | .createView statement => statement.pieces
  | .createTrigger statement => statement.pieces
  | .createIndex statement => statement.pieces

end

/-- The statements of a trigger are written one after the other, each with a semicolon. -/
theorem Statement.bodyPieces_eq_flatMap (body : List Statement) :
    Statement.bodyPieces body =
      body.flatMap fun statement => .blank :: (statement.pieces ++ [.symbol .semicolon]) := by
  induction body with
  | nil => rfl
  | cons statement rest ih => simp [Statement.bodyPieces, ih]

/-- The text of a statement. -/
def Statement.render (statement : Statement) : String :=
  text statement.pieces

end SqlTree
