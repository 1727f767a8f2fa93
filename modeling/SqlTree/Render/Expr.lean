import SqlTree.Render.Piece
import SqlTree.Tree.Expr

set_option autoImplicit false

/-!
# Writing expressions and queries

Expressions and queries as pieces. Nothing is put into parentheses that is not in parentheses in
the tree.

## Main definitions

* `SqlTree.Expr.pieces`, `SqlTree.Query.pieces` — the pieces of expressions and queries, with those
  of every part beside them.
* `SqlTree.Expr.render`, `SqlTree.Query.render` — their text.
-/

namespace SqlTree

open Render

/-- How a column type is written. -/
def TypeName.pieces (type : TypeName) : List Piece :=
  .verbatim type.name ::
    if type.arguments.isEmpty then []
    else parens (commas (type.arguments.map fun argument => [.verbatim argument]))

/-- How the index of a table reference is written, after a blank. -/
def Indexing.pieces : Indexing → List Piece
  | .indexedBy name => [.blank, .keyword .INDEXED, .blank, .keyword .BY, .blank, .name name]
  | .notIndexed => [.blank, .keyword .NOT, .blank, .keyword .INDEXED]

mutual

/-- The pieces of an expression. -/
def Expr.pieces : Expr → List Piece
  | .literal value _ => [.literal value]
  | .reference schema table column _ =>
    (match schema with
      | some schema => [.name schema, .symbol .dot]
      | none => []) ++ qualified table column
  | .variable which _ => [.variable which]
  | .placeholder name _ => [.variable (.named .dollar name)]
  | .unary op operand _ => op.pieces operand.pieces
  | .binary left op right _ => left.pieces ++ .blank :: op.pieces ++ .blank :: right.pieces
  | .collate operand collation _ =>
    operand.pieces ++ [.blank, .keyword .COLLATE, .blank, .name collation]
  | .isNull operand negated _ =>
    operand.pieces ++ .blank :: .keyword .IS :: .blank :: wordsIf negated [.NOT] ++ [.keyword .NULL]
  | .like operand op pattern escape negated _ =>
    operand.pieces ++ .blank :: wordsIf negated [.NOT] ++
      .keyword op.keyword :: .blank :: pattern.pieces ++
      match escape with
      | some escape => .blank :: .keyword .ESCAPE :: .blank :: escape.pieces
      | none => []
  | .isIn operand source negated _ =>
    operand.pieces ++ .blank :: wordsIf negated [.NOT] ++ .keyword .IN :: .blank :: source.pieces
  | .between operand low high negated _ =>
    operand.pieces ++ .blank :: wordsIf negated [.NOT] ++
      .keyword .BETWEEN :: .blank :: low.pieces ++
      .blank :: .keyword .AND :: .blank :: high.pieces
  | .cases operand branches otherwise _ =>
    .keyword .CASE ::
      (match operand with
        | some operand => .blank :: operand.pieces
        | none => []) ++
      WhenClause.listPieces branches ++
      (match otherwise with
        | some otherwise => .blank :: .keyword .ELSE :: .blank :: otherwise.pieces
        | none => []) ++
      [.blank, .keyword .END]
  | .cast operand type _ =>
    .keyword .CAST :: parens (operand.pieces ++ .blank :: .keyword .AS :: .blank :: type.pieces)
  | .existsRow query negated _ =>
    wordsIf negated [.NOT] ++ .keyword .EXISTS :: .blank :: parens query.pieces
  | .subquery query _ => parens query.pieces
  | .tuple items _ => parens (commas (Expr.listPieces items))
  | .parentheses inner _ => parens inner.pieces
  | .call name parameters _ => .functionName name :: parens parameters.pieces
  | .aggregate name parameters order filter _ =>
    .functionName name ::
      parens (parameters.pieces ++
        match order with
        | some order => .blank :: order.pieces
        | none => []) ++
      match filter with
      | some filter => .blank :: .keyword .FILTER :: .blank ::
          parens (.keyword .WHERE :: .blank :: filter.pieces)
      | none => []
  | .windowCall name parameters filter window _ =>
    .functionName name :: parens parameters.pieces ++
      (match filter with
      | some filter => .blank :: .keyword .FILTER :: .blank ::
          parens (.keyword .WHERE :: .blank :: filter.pieces)
      | none => []) ++
      .blank :: .keyword .OVER :: .blank :: window.pieces
  | .raise action message _ =>
    .keyword .RAISE ::
      parens (.keyword action.keyword ::
        match message with
        | some message => .symbol .comma :: .blank :: message.pieces
        | none => [])

/-- The pieces of each expression. -/
def Expr.listPieces : List Expr → List (List Piece)
  | [] => []
  | expr :: rest => expr.pieces :: Expr.listPieces rest

/-- The pieces of what membership is tested in. -/
def InSource.pieces : InSource → List Piece
  | .list items => parens (commas (Expr.listPieces items))
  | .subquery query => parens query.pieces
  | .table schema name _ => qualified schema name
  | .variable which => which.pieces

/-- The pieces of a branch of a choice. -/
def WhenClause.pieces : WhenClause → List Piece
  | ⟨condition, result, _⟩ =>
    .keyword .WHEN :: .blank :: condition.pieces ++
      .blank :: .keyword .THEN :: .blank :: result.pieces

/-- The pieces of branches, each after a blank. -/
def WhenClause.listPieces : List WhenClause → List Piece
  | [] => []
  | branch :: rest => .blank :: branch.pieces ++ WhenClause.listPieces rest

/-- The pieces of what a function is called with. -/
def Parameters.pieces : Parameters → List Piece
  | .none => []
  | .star => [.symbol .star]
  | .list distinct arguments =>
    wordsIf distinct [.DISTINCT] ++ commas (Expr.listPieces arguments)

/-- The pieces of the window of a function. -/
def Over.pieces : Over → List Piece
  | .window definition => definition.pieces
  | .named name _ => [.name name]

/-- The pieces of a sorting term. -/
def OrderingTerm.pieces : OrderingTerm → List Piece
  | ⟨expr, direction, nulls, _⟩ =>
    expr.pieces ++ suffix (direction.map fun direction => [direction.keyword]) ++
      suffix (nulls.map NullOrdering.keywords)

/-- The pieces of an item of a sorting clause. -/
def OrderingItem.pieces : OrderingItem → List Piece
  | .term sorting => sorting.pieces
  | .placeholder name _ => [.variable (.named .dollar name)]

/-- The pieces of each item of a sorting clause. -/
def OrderingItem.listPieces : List OrderingItem → List (List Piece)
  | [] => []
  | item :: rest => item.pieces :: OrderingItem.listPieces rest

/-- The pieces of a sorting clause. -/
def OrderBy.pieces : OrderBy → List Piece
  | ⟨items, _⟩ => words [.ORDER, .BY] ++ .blank :: commas (OrderingItem.listPieces items)

/-- The pieces of an end of a frame. -/
def FrameBound.pieces : FrameBound → List Piece
  | .unboundedPreceding => words [.UNBOUNDED, .PRECEDING]
  | .preceding offset => offset.pieces ++ [.blank, .keyword .PRECEDING]
  | .currentRow => words [.CURRENT, .ROW]
  | .following offset => offset.pieces ++ [.blank, .keyword .FOLLOWING]
  | .unboundedFollowing => words [.UNBOUNDED, .FOLLOWING]

/-- The pieces of a frame. -/
def Frame.pieces : Frame → List Piece
  | ⟨unit, start, stop, exclude, _⟩ =>
    .keyword unit.keyword :: .blank :: .keyword .BETWEEN :: .blank :: start.pieces ++
      .blank :: .keyword .AND :: .blank :: stop.pieces ++
      suffix (if exclude = .noOthers then none else some exclude.keywords)

/-- The pieces of the definition of a window. -/
def Window.pieces : Window → List Piece
  | ⟨base, partition, order, frame, _⟩ =>
    let base := base.toList.map fun name => [.name name]
    let partition :=
      if partition.isEmpty then []
      else [words [.PARTITION, .BY] ++ .blank :: commas (Expr.listPieces partition)]
    let order :=
      match order with
      | some order => [order.pieces]
      | none => []
    let frame :=
      match frame with
      | some frame => [frame.pieces]
      | none => []
    parens (separated [.blank] (base ++ partition ++ order ++ frame))

/-- The pieces of a window with a name. -/
def NamedWindow.pieces : NamedWindow → List Piece
  | ⟨name, definition, _⟩ => .name name :: .blank :: .keyword .AS :: .blank :: definition.pieces

/-- The pieces of each window with a name. -/
def NamedWindow.listPieces : List NamedWindow → List (List Piece)
  | [] => []
  | window :: rest => window.pieces :: NamedWindow.listPieces rest

/-- The pieces of what joined rows have in common, after a blank. -/
def JoinConstraint.pieces : JoinConstraint → List Piece
  | .condition expr => .blank :: .keyword .ON :: .blank :: expr.pieces
  | .columns list => .blank :: .keyword .USING :: .blank :: parens (names list)

/-- The pieces of a join after its left table. -/
def Join.pieces : Join → List Piece
  | ⟨natural, kind, table, constraint, _⟩ =>
    (if kind = .comma then [.symbol .comma]
      else .blank :: wordsIf natural [.NATURAL] ++ words kind.keywords) ++
      .blank :: table.pieces ++
      match constraint with
      | some constraint => constraint.pieces
      | none => []

/-- The pieces of a table reference. -/
def TableRef.pieces : TableRef → List Piece
  | .table schema name aliasName indexing _ =>
    qualified schema name ++ aliased aliasName ++
      match indexing with
      | some indexing => indexing.pieces
      | none => []
  | .subquery query aliasName _ => parens query.pieces ++ aliased aliasName
  | .function schema name arguments aliasName _ =>
    (match schema with
      | some schema => [.name schema, .symbol .dot]
      | none => []) ++
      .functionName name :: parens (commas (Expr.listPieces arguments)) ++ aliased aliasName
  | .parenthesized inner _ => parens inner.pieces
  | .join left right _ => left.pieces ++ right.pieces

/-- The pieces of a result column. -/
def ResultColumn.pieces : ResultColumn → List Piece
  | .star _ => [.symbol .star]
  | .tableStar table _ => [.name table, .symbol .dot, .symbol .star]
  | .nestedStar table _ => [.name table, .symbol .dot, .symbol .doubleStar]
  | .expression expr aliasName mappedBy _ =>
    expr.pieces ++ aliased aliasName ++
      match mappedBy with
      | some code => [.blank, .keyword .MAPPED, .blank, .keyword .BY, .blank, .dart code]
      | none => []
  | .nestedQuery query aliasName _ => .name "LIST" :: parens query.pieces ++ aliased aliasName

/-- The pieces of each result column. -/
def ResultColumn.listPieces : List ResultColumn → List (List Piece)
  | [] => []
  | column :: rest => column.pieces :: ResultColumn.listPieces rest

/-- The pieces of a common table. -/
def CommonTable.pieces : CommonTable → List Piece
  | ⟨name, columns, materialized, query, _⟩ =>
    .name name :: (if columns.isEmpty then [] else parens (names columns)) ++
      .blank :: .keyword .AS :: .blank ::
      (match materialized with
        | some true => wordsIf true [.MATERIALIZED]
        | some false => wordsIf true [.NOT, .MATERIALIZED]
        | none => []) ++
      parens query.pieces

/-- The pieces of each common table. -/
def CommonTable.listPieces : List CommonTable → List (List Piece)
  | [] => []
  | table :: rest => table.pieces :: CommonTable.listPieces rest

/-- The pieces of the common tables of a statement. -/
def WithClause.pieces : WithClause → List Piece
  | ⟨recursive, tables, _⟩ =>
    .keyword .WITH :: .blank :: wordsIf recursive [.RECURSIVE] ++
      commas (CommonTable.listPieces tables)

/-- The pieces of a query that computes columns. -/
def SelectClause.pieces : SelectClause → List Piece
  | ⟨distinct, columns, source, filter, groupBy, having, windows, _⟩ =>
    .keyword .SELECT :: .blank :: wordsIf distinct [.DISTINCT] ++
      commas (ResultColumn.listPieces columns) ++
      (match source with
        | some source => .blank :: .keyword .FROM :: .blank :: source.pieces
        | none => []) ++
      (match filter with
        | some filter => .blank :: .keyword .WHERE :: .blank :: filter.pieces
        | none => []) ++
      (if groupBy.isEmpty then []
        else .blank :: words [.GROUP, .BY] ++ .blank :: commas (Expr.listPieces groupBy)) ++
      (match having with
        | some having => .blank :: .keyword .HAVING :: .blank :: having.pieces
        | none => []) ++
      (if windows.isEmpty then []
        else .blank :: .keyword .WINDOW :: .blank :: commas (NamedWindow.listPieces windows))

/-- The pieces of each row of values, in parentheses. -/
def ValuesClause.rowPieces : List (List Expr) → List (List Piece)
  | [] => []
  | row :: rest => parens (commas (Expr.listPieces row)) :: ValuesClause.rowPieces rest

/-- The pieces of a query that lists its rows. -/
def ValuesClause.pieces : ValuesClause → List Piece
  | ⟨rows, _⟩ => .keyword .VALUES :: .blank :: commas (ValuesClause.rowPieces rows)

/-- The pieces of a member of a compound query. -/
def QueryCore.pieces : QueryCore → List Piece
  | .select clause => clause.pieces
  | .values clause => clause.pieces

/-- The pieces of the further members of a compound query, each after a blank. -/
def CompoundPart.listPieces : List CompoundPart → List Piece
  | [] => []
  | part :: rest => .blank :: part.pieces ++ CompoundPart.listPieces rest

/-- The pieces of a further member of a compound query. -/
def CompoundPart.pieces : CompoundPart → List Piece
  | ⟨operator, core, _⟩ => words operator.keywords ++ .blank :: core.pieces

/-- The pieces of a limit. -/
def Limit.pieces : Limit → List Piece
  | ⟨kind, _⟩ => .keyword .LIMIT :: .blank :: kind.pieces

/-- The pieces of the kind of a limit. -/
def LimitKind.pieces : LimitKind → List Piece
  | .expressions count offset =>
    count.pieces ++
      match offset with
      | some offset => .blank :: .keyword .OFFSET :: .blank :: offset.pieces
      | none => []
  | .placeholder name => [.variable (.named .dollar name)]

/-- The pieces of a query. -/
def Query.pieces : Query → List Piece
  | ⟨commonTables, core, compounds, order, limit, _⟩ =>
    (match commonTables with
      | some commonTables => commonTables.pieces ++ [.blank]
      | none => []) ++
      core.pieces ++ CompoundPart.listPieces compounds ++
      (match order with
        | some order => .blank :: order.pieces
        | none => []) ++
      match limit with
      | some limit => .blank :: limit.pieces
      | none => []

end

/-- The text of an expression. -/
def Expr.render (expr : Expr) : String :=
  text expr.pieces

/-- The text of a query. -/
def Query.render (query : Query) : String :=
  text query.pieces

end SqlTree
