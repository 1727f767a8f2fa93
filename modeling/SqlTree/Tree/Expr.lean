import SqlTree.Tree.Clause
import SqlTree.Tree.Literal

set_option autoImplicit false

/-!
# Expressions and queries

The trees of expressions and of the queries they may hold. Every part that stands for a piece of
source text ends with the span of that piece. Parentheses of the source are parts of the tree, so
writing a tree never has to add any.

## Main definitions

* `SqlTree.Expr` — expressions.
* `SqlTree.Query` — queries: `SELECT` and `VALUES`, with everything that may surround them.
* `SqlTree.TableRef` — what a query reads from.
* `SqlTree.Window`, `SqlTree.Frame` — windows of window functions and their frames.
-/

namespace SqlTree

mutual

/-- An expression. -/
inductive Expr where
  /-- A constant. -/
  | literal (value : Literal) (span : Span)
  /-- A column, perhaps of a table, perhaps of a schema. -/
  | reference (schema table : Option String) (column : String) (span : Span)
  /-- A variable of the query. -/
  | variable (which : Variable) (span : Span)
  /-- A Dart placeholder that stands for an expression. -/
  | placeholder (name : String) (span : Span)
  /-- An operator before its operand. -/
  | unary (op : UnaryOp) (operand : Expr) (span : Span)
  /-- An operator between its operands. -/
  | binary (left : Expr) (op : BinaryOp) (right : Expr) (span : Span)
  /-- An operand with a collating sequence. -/
  | collate (operand : Expr) (collation : String) (span : Span)
  /-- A test for null, or for not null. -/
  | isNull (operand : Expr) (negated : Bool) (span : Span)
  /-- A comparison with a pattern. -/
  | like (operand : Expr) (op : PatternOp) (pattern : Expr) (escape : Option Expr) (negated : Bool)
    (span : Span)
  /-- A test for membership. -/
  | isIn (operand : Expr) (source : InSource) (negated : Bool) (span : Span)
  /-- A test for lying between two bounds. -/
  | between (operand low high : Expr) (negated : Bool) (span : Span)
  /-- A choice between values. -/
  | cases (operand : Option Expr) (branches : List WhenClause) (otherwise : Option Expr)
    (span : Span)
  /-- A conversion to a type. -/
  | cast (operand : Expr) (type : TypeName) (span : Span)
  /-- A test whether a query has rows. -/
  | existsRow (query : Query) (negated : Bool) (span : Span)
  /-- A query in parentheses. -/
  | subquery (query : Query) (span : Span)
  /-- Two or more expressions in parentheses. -/
  | tuple (items : List Expr) (span : Span)
  /-- One expression in parentheses. -/
  | parentheses (inner : Expr) (span : Span)
  /-- A function call. -/
  | call (name : String) (parameters : Parameters) (span : Span)
  /-- A call of an aggregate function with an order or a filter. -/
  | aggregate (name : String) (parameters : Parameters) (order : Option OrderBy)
    (filter : Option Expr) (span : Span)
  /-- A call of a window function. -/
  | windowCall (name : String) (parameters : Parameters) (filter : Option Expr) (window : Over)
    (span : Span)
  /-- An error raised inside a trigger. -/
  | raise (action : RaiseAction) (message : Option Expr) (span : Span)

/-- What membership is tested in. -/
inductive InSource where
  /-- The values in parentheses. -/
  | list (items : List Expr)
  /-- The rows of a query in parentheses. -/
  | subquery (query : Query)
  /-- The rows of a table. -/
  | table (schema : Option String) (name : String) (span : Span)
  /-- The values that a variable or placeholder stands for. -/
  | variable (which : Expr)

/-- One branch of a choice. -/
structure WhenClause where
  condition : Expr
  result : Expr
  span : Span

/-- What a function is called with. -/
inductive Parameters where
  /-- Nothing. -/
  | none
  /-- An asterisk. -/
  | star
  /-- One or more arguments. -/
  | list (distinct : Bool) (arguments : List Expr)

/-- The window that a function is computed over. -/
inductive Over where
  | window (definition : Window)
  | named (name : String) (span : Span)

/-- An expression to sort by. -/
structure OrderingTerm where
  expr : Expr
  direction : Option OrderDirection
  nulls : Option NullOrdering
  span : Span

/-- A sorting term, or a placeholder for one. -/
inductive OrderingItem where
  | term (term : OrderingTerm)
  | placeholder (name : String) (span : Span)

/-- A sorting clause. -/
structure OrderBy where
  items : List OrderingItem
  span : Span

/-- An end of a window frame. -/
inductive FrameBound where
  | unboundedPreceding
  | preceding (offset : Expr)
  | currentRow
  | following (offset : Expr)
  | unboundedFollowing

/-- The frame of a window. -/
structure Frame where
  unit : FrameUnit
  start : FrameBound
  stop : FrameBound
  exclude : Exclusion
  span : Span

/-- The definition of a window. -/
structure Window where
  /-- The window that this one refines. -/
  base : Option String
  partition : List Expr
  order : Option OrderBy
  frame : Option Frame
  span : Span

/-- A window with a name. -/
structure NamedWindow where
  name : String
  definition : Window
  span : Span

/-- What the rows of a join have in common. -/
inductive JoinConstraint where
  /-- A condition holds. -/
  | condition (expr : Expr)
  /-- The columns of these names are equal. -/
  | columns (names : List String)

/-- A join with what stands to its left. -/
structure Join where
  natural : Bool
  kind : JoinKind
  table : TableRef
  constraint : Option JoinConstraint
  span : Span

/-- What a query reads from. -/
inductive TableRef where
  | table (schema : Option String) (name : String) (aliasName : Option String)
    (indexing : Option Indexing) (span : Span)
  | subquery (query : Query) (aliasName : Option String) (span : Span)
  | function (schema : Option String) (name : String) (arguments : List Expr)
    (aliasName : Option String) (span : Span)
  | parenthesized (inner : TableRef) (span : Span)
  | join (left : TableRef) (right : Join) (span : Span)

/-- A column of a result. -/
inductive ResultColumn where
  /-- All columns. -/
  | star (span : Span)
  /-- All columns of a table. -/
  | tableStar (table : String) (span : Span)
  /-- All columns of a table, as one nested value. -/
  | nestedStar (table : String) (span : Span)
  /-- An expression, perhaps with a name, perhaps with a Dart converter. -/
  | expression (expr : Expr) (aliasName mappedBy : Option String) (span : Span)
  /-- The rows of a query, as one nested list. -/
  | nestedQuery (query : Query) (aliasName : Option String) (span : Span)

/-- A query that others can read from under a name. -/
structure CommonTable where
  name : String
  columns : List String
  materialized : Option Bool
  query : Query
  span : Span

/-- The common tables of a statement. -/
structure WithClause where
  recursive : Bool
  tables : List CommonTable
  span : Span

/-- A query that computes columns from tables. -/
structure SelectClause where
  distinct : Bool
  columns : List ResultColumn
  source : Option TableRef
  filter : Option Expr
  groupBy : List Expr
  having : Option Expr
  windows : List NamedWindow
  span : Span

/-- A query that lists its rows. -/
structure ValuesClause where
  rows : List (List Expr)
  span : Span

/-- One member of a compound query. -/
inductive QueryCore where
  | select (clause : SelectClause)
  | values (clause : ValuesClause)

/-- A further member of a compound query. -/
structure CompoundPart where
  operator : CompoundOperator
  core : QueryCore
  span : Span

/-- How many rows a query returns. -/
inductive LimitKind where
  | expressions (count : Expr) (offset : Option Expr)
  | placeholder (name : String)

/-- A limit on the rows of a query. -/
structure Limit where
  kind : LimitKind
  span : Span

/-- A query. -/
structure Query where
  commonTables : Option WithClause
  core : QueryCore
  compounds : List CompoundPart
  order : Option OrderBy
  limit : Option Limit
  span : Span

end

/-! ## Reading the trees -/

namespace Parameters

/-- The arguments of a call. -/
def arguments : Parameters → List Expr
  | .none | .star => []
  | .list _ arguments => arguments

end Parameters

namespace Expr

instance : Inhabited Expr := ⟨.literal .null .none⟩

/-- Where an expression is written. -/
def span : Expr → Span
  | .literal _ span | .reference _ _ _ span | .variable _ span | .placeholder _ span
  | .unary _ _ span | .binary _ _ _ span | .collate _ _ span | .isNull _ _ span
  | .like _ _ _ _ _ span | .isIn _ _ _ span | .between _ _ _ _ span | .cases _ _ _ span
  | .cast _ _ span | .existsRow _ _ span | .subquery _ span | .tuple _ span | .parentheses _ span
  | .call _ _ span | .aggregate _ _ _ _ span | .windowCall _ _ _ _ span | .raise _ _ span => span

/-- The name and the parameters of a function call of any kind. -/
def function? : Expr → Option (String × Parameters)
  | .call name parameters _ => some (name, parameters)
  | .aggregate name parameters _ _ _ => some (name, parameters)
  | .windowCall name parameters _ _ _ => some (name, parameters)
  | _ => none

/-- The expression inside any number of parentheses. -/
def unparenthesized : Expr → Expr
  | .parentheses inner _ => inner.unparenthesized
  | expr => expr

end Expr

/-- The direction in which a term sorts; ascending unless it is stated. -/
def OrderingTerm.resolvedDirection (term : OrderingTerm) : OrderDirection :=
  term.direction.getD .asc

/-- Where an item of a sorting clause is written. -/
def OrderingItem.span : OrderingItem → Span
  | .term sorting => sorting.span
  | .placeholder _ span => span

/-- The terms of a sorting clause, without its placeholders. -/
def OrderBy.terms (order : OrderBy) : List OrderingTerm :=
  order.items.filterMap fun
    | .term sorting => some sorting
    | .placeholder _ _ => none

/-- The expression of a bound at some distance from the current row. -/
def FrameBound.offset? : FrameBound → Option Expr
  | .preceding offset | .following offset => some offset
  | _ => none

/-- The frame of a window that states none: from the first row up to the current one. -/
def Frame.default : Frame :=
  ⟨.range, .unboundedPreceding, .currentRow, .noOthers, .none⟩

/-- The frame of a window, stated or not. -/
def Window.effectiveFrame (window : Window) : Frame :=
  window.frame.getD .default

namespace TableRef

/-- Where a table reference is written. -/
def span : TableRef → Span
  | .table _ _ _ _ span | .subquery _ _ span | .function _ _ _ _ span | .parenthesized _ span
  | .join _ _ span => span

/-- The name that a table is given in the query. -/
def aliasName? : TableRef → Option String
  | .table _ _ aliasName _ _ | .subquery _ aliasName _ | .function _ _ _ aliasName _ => aliasName
  | .parenthesized _ _ | .join _ _ _ => none

end TableRef

/-- Where a result column is written. -/
def ResultColumn.span : ResultColumn → Span
  | .star span | .tableStar _ span | .nestedStar _ span | .expression _ _ _ span
  | .nestedQuery _ _ span => span

/-- Where a member of a compound query is written. -/
def QueryCore.span : QueryCore → Span
  | .select clause => clause.span
  | .values clause => clause.span

namespace Query

/-- The first member of a query, if it computes columns. -/
def selectClause? (query : Query) : Option SelectClause :=
  match query.core with
  | .select clause => some clause
  | .values _ => none

/-- The query has more than one member. -/
def isCompound (query : Query) : Bool :=
  !query.compounds.isEmpty

end Query

end SqlTree
