import SqlTree.Tree.Change

set_option autoImplicit false

/-!
# Statements that create things

Tables, virtual tables, views, triggers and indexes, with the constraints of columns and tables.

## Main definitions

* `SqlTree.ForeignKey`, `SqlTree.ColumnConstraint`, `SqlTree.TableConstraint` — constraints.
* `SqlTree.CreateTable`, `SqlTree.CreateVirtualTable`, `SqlTree.CreateView`,
  `SqlTree.CreateTrigger`, `SqlTree.CreateIndex` — the statements.
* `SqlTree.Statement` — every kind of statement.
-/

namespace SqlTree

/-! ## Foreign keys -/

/-- What happens to the rows that refer to a changed row. -/
inductive ReferentialAction where
  | setNull | setDefault | cascade | restrict | noAction
deriving DecidableEq, Repr, Inhabited

/-- The words of a referential action. -/
def ReferentialAction.keywords : ReferentialAction → List Keyword
  | .setNull => [.SET, .NULL]
  | .setDefault => [.SET, .DEFAULT]
  | .cascade => [.CASCADE]
  | .restrict => [.RESTRICT]
  | .noAction => [.NO, .ACTION]

/-- The change that a referential action answers. -/
inductive ReferentialEvent where
  | delete | update
deriving DecidableEq, Repr, Inhabited

/-- The word of a referential event. -/
def ReferentialEvent.keyword : ReferentialEvent → Keyword
  | .delete => .DELETE
  | .update => .UPDATE

/-- When a foreign key is checked. -/
structure Deferrable where
  negated : Bool
  initiallyDeferred : Option Bool
deriving DecidableEq, Repr, Inhabited

/-- What a foreign key refers to. -/
structure ForeignKey where
  table : String
  columns : List String
  actions : List (ReferentialEvent × ReferentialAction)
  deferrable : Option Deferrable
  span : Span
deriving DecidableEq, Repr, Inhabited

/-- The action that answers an event: the one that is written last. -/
def ForeignKey.actionFor? (key : ForeignKey) (event : ReferentialEvent) :
    Option ReferentialAction :=
  (key.actions.reverse.find? fun entry => entry.1 = event).map Prod.snd

/-! ## Columns -/

/-- Whether a generated column is stored or computed when it is read. -/
inductive GeneratedStorage where
  | stored | virtual
deriving DecidableEq, Repr, Inhabited

/-- What a constraint of a column demands. -/
inductive ColumnConstraintKind where
  | primaryKey (direction : Option OrderDirection) (onConflict : Option Conflict)
    (autoincrement : Bool)
  | notNull (onConflict : Option Conflict)
  | null
  | unique (onConflict : Option Conflict)
  | check (expr : Expr)
  | default (expr : Expr)
  | collate (collation : String)
  | foreignKey (key : ForeignKey)
  | generated (expr : Expr) (storage : Option GeneratedStorage) (always : Bool)
  /-- The Dart converter of the column. -/
  | mappedBy (code : String)
  /-- The key of the column in JSON objects. -/
  | jsonKey (key : String)
  /-- The name of the column in Dart. -/
  | dartName (name : String)

/-- A constraint of a column, perhaps with a name. -/
structure ColumnConstraint where
  name : Option String
  kind : ColumnConstraintKind
  span : Span

/-- The definition of a column. -/
structure ColumnDefinition where
  name : String
  type : Option TypeName
  constraints : List ColumnConstraint
  span : Span

namespace ColumnDefinition

/-- The column is declared not to be null, or to be the primary key. -/
def isNonNullable (column : ColumnDefinition) : Bool :=
  column.constraints.any fun constraint =>
    match constraint.kind with
    | .notNull _ | .primaryKey _ _ _ => true
    | _ => false

/-- The first Dart converter of the column. -/
def mappedBy? (column : ColumnDefinition) : Option String :=
  column.constraints.findSome? fun constraint =>
    match constraint.kind with
    | .mappedBy code => some code
    | _ => none

end ColumnDefinition

/-! ## Tables -/

/-- What a constraint of a table demands. -/
inductive TableConstraintKind where
  | primaryKey (columns : List IndexedColumn) (onConflict : Option Conflict)
  | unique (columns : List IndexedColumn) (onConflict : Option Conflict)
  | check (expr : Expr)
  | foreignKey (columns : List String) (key : ForeignKey)

/-- A constraint of a table, perhaps with a name. -/
structure TableConstraint where
  name : Option String
  kind : TableConstraintKind
  span : Span

/-- The Dart class of the rows of a table or view. -/
structure RowClass where
  name : String
  /-- The class exists already, instead of being generated. -/
  existing : Bool
  span : Span
deriving DecidableEq, Repr, Inhabited

/-- The columns, constraints and options of a table. -/
structure TableDefinition where
  columns : List ColumnDefinition
  constraints : List TableConstraint
  withoutRowid : Bool
  strict : Bool
  rowClass : Option RowClass

/-- A statement that creates a table: with a definition of its own, or from the rows of a query. A
table that has been read has only one of the two. -/
structure CreateTable extends TableDefinition where
  temporary : Bool
  ifNotExists : Bool
  schema : Option String
  name : String
  /-- The query whose rows the table is made of. -/
  asSelect : Option Query
  span : Span

/-- The column of this name, whatever its case. -/
def CreateTable.column? (table : CreateTable) (name : String) : Option ColumnDefinition :=
  table.columns.find? fun column => equalIgnoringCase column.name name

/-! ## Virtual tables -/

/-- A column of a full-text index. -/
structure Fts5Column where
  name : String
  /-- The column is stored, but not searched. -/
  unindexed : Bool
deriving DecidableEq, Repr, Inhabited

/-- What the arguments of a virtual table mean to its module. -/
inductive VirtualModule where
  | fts5 (columns : List Fts5Column) (options : List (String × String))
  | rtree (integer : Bool) (id : String) (coordinates auxiliary : List String)
  | unknown
deriving DecidableEq, Repr, Inhabited

/-- A statement that creates a virtual table. -/
structure CreateVirtualTable where
  ifNotExists : Bool
  schema : Option String
  name : String
  module : String
  /-- The source text of the arguments. -/
  arguments : List String
  recognized : VirtualModule
  span : Span
deriving DecidableEq, Repr, Inhabited

/-! ## Views and indexes -/

/-- A statement that creates a view. -/
structure CreateView where
  temporary : Bool
  ifNotExists : Bool
  schema : Option String
  name : String
  columns : List String
  rowClass : Option RowClass
  query : Query
  span : Span

/-- A statement that creates an index. -/
structure CreateIndex where
  unique : Bool
  ifNotExists : Bool
  schema : Option String
  name : String
  table : String
  columns : List IndexedColumn
  filter : Option Expr
  span : Span

/-! ## Triggers and statements -/

/-- When a trigger runs. -/
inductive TriggerTiming where
  | before | after | insteadOf
deriving DecidableEq, Repr, Inhabited

/-- The words of a timing. -/
def TriggerTiming.keywords : TriggerTiming → List Keyword
  | .before => [.BEFORE]
  | .after => [.AFTER]
  | .insteadOf => [.INSTEAD, .OF]

/-- The change that a trigger answers. -/
inductive TriggerEvent where
  | delete
  | insert
  | update (columns : List String)
deriving DecidableEq, Repr, Inhabited

mutual

/-- A statement that creates a trigger. The statements of its body are of any kind, although those
that have been read create nothing themselves. -/
structure CreateTrigger where
  temporary : Bool
  ifNotExists : Bool
  schema : Option String
  name : String
  timing : Option TriggerTiming
  event : TriggerEvent
  table : String
  forEachRow : Bool
  condition : Option Expr
  body : List Statement
  span : Span

/-- A statement. -/
inductive Statement where
  | data (statement : DataStatement)
  | createTable (statement : CreateTable)
  | createVirtualTable (statement : CreateVirtualTable)
  | createView (statement : CreateView)
  | createTrigger (statement : CreateTrigger)
  | createIndex (statement : CreateIndex)

end

namespace Statement

/-- Where a statement is written. -/
def span : Statement → Span
  | .data statement => statement.span
  | .createTable statement => statement.span
  | .createVirtualTable statement => statement.span
  | .createView statement => statement.span
  | .createTrigger statement => statement.span
  | .createIndex statement => statement.span

/-- The statement only reads. -/
def isQuery : Statement → Bool
  | .data (.select _) => true
  | _ => false

/-- The statement creates something. -/
def isSchemaStatement : Statement → Bool
  | .data _ => false
  | _ => true

end Statement

end SqlTree
