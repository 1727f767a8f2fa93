import SqlTree.Proofs.Legible.Expr
import SqlTree.Proofs.Reread.Select

set_option autoImplicit false

/-!
# Written queries are scanned into their words

## Main results

* `SqlTree.Node.legible_tableRef`, `SqlTree.Node.legible_resultColumn`,
  `SqlTree.Node.legible_query` — the parts of queries are legible if their children are.
-/

namespace SqlTree

open Render

/-! ## Optional parts -/

/-- The pieces of a window. -/
lemma Window.pieces_mk {base : Option String} {partition : List Expr} {order : Option OrderBy}
    {frame : Option Frame} {span : Span} :
    Window.pieces ⟨base, partition, order, frame, span⟩ =
      parens (separated [.blank] (base.toList.map (fun name => [.name name]) ++
        (if partition.isEmpty then []
          else [words [.PARTITION, .BY] ++ .blank :: commas (Expr.listPieces partition)]) ++
        order.toList.map OrderBy.pieces ++ frame.toList.map Frame.pieces)) := by
  cases order <;> cases frame <;> rfl

/-- The pieces of a join. -/
lemma Join.pieces_mk {natural : Bool} {kind : JoinKind} {table : TableRef}
    {constraint : Option JoinConstraint} {span : Span} :
    Join.pieces ⟨natural, kind, table, constraint, span⟩ =
      (if kind = .comma then [.symbol .comma]
        else .blank :: wordsIf natural [.NATURAL] ++ words kind.keywords) ++
        .blank :: table.pieces ++ Render.optional constraint JoinConstraint.pieces := by
  cases constraint <;> rfl

/-- The pieces of a result column that is an expression. -/
lemma ResultColumn.pieces_expression {expr : Expr} {aliasName mappedBy : Option String}
    {span : Span} :
    (expression expr aliasName mappedBy span).pieces = expr.pieces ++ aliased aliasName ++
      Render.optional mappedBy fun code =>
        [.blank, .keyword .MAPPED, .blank, .keyword .BY, .blank, .dart code] := by
  cases mappedBy <;> rfl

/-- The pieces of the expressions of a limit: the offset comes last. -/
lemma LimitKind.pieces_expressions {count : Expr} {offset : Option Expr} :
    (expressions count offset).pieces = count.pieces ++
      Render.optional offset fun offset =>
        .blank :: .keyword .OFFSET :: .blank :: offset.pieces := by
  cases offset <;> rfl

/-- The pieces of a query. -/
lemma Query.pieces_mk {commonTables : Option WithClause} {core : QueryCore}
    {compounds : List CompoundPart} {order : Option OrderBy} {limit : Option Limit} {span : Span} :
    Query.pieces ⟨commonTables, core, compounds, order, limit, span⟩ =
      withClause commonTables ++ core.pieces ++ CompoundPart.listPieces compounds ++
        Render.optional order (fun order => .blank :: order.pieces) ++
        Render.optional limit fun limit => .blank :: limit.pieces := by
  cases commonTables <;> cases order <;> cases limit <;> rfl

namespace Node

variable {drift : Bool}

/-! ## Sorting and windows -/

/-- An ordering item is legible if its children are, and its placeholder is written like a
variable. -/
lemma legible_orderingItem {part : OrderingItem} (isWritten : IsWritten drift (.orderingItem part))
    (children : AllLegible drift (ofOrderingItem part)) : Legible drift part.pieces := by
  cases part with
  | term sorting =>
    obtain ⟨expr, direction, nulls, span⟩ := sorting
    simp only [ofOrderingItem, allLegible_cons, Node.pieces] at children
    simp only [OrderingItem.pieces, OrderingTerm.pieces, List.append_assoc]
    exact children.1.append (.append (.suffix _) (.suffix _))
  | placeholder name =>
    have isWritten : (Variable.named .dollar name).IsWritten := isWritten
    rw [OrderingItem.pieces]
    exact (legible_variable isWritten).legible

/-- `ORDER BY` is legible if its items are. -/
lemma legible_orderBy {part : OrderBy}
    (children : AllLegible drift (each orderingItem part.items)) :
    Legible drift part.pieces := by
  obtain ⟨items, span⟩ := part
  simp only [allLegible_each, Node.pieces] at children
  rw [OrderBy.pieces, OrderingItem.listPieces_eq_map]
  exact (Legible.words _).append (.blank (.mapped children))

/-- A bound of a frame is legible if its offset is. -/
lemma legible_frameBound {bound : FrameBound}
    (children : AllLegible drift (maybe expr bound.offset?)) : Legible drift bound.pieces := by
  simp only [allLegible_maybe, Node.pieces] at children
  cases bound with
  | preceding offset | following offset =>
    rw [FrameBound.pieces]
    exact (children offset rfl).append (.blank (.keyword _ .nil))
  | _ =>
    rw [FrameBound.pieces]
    exact .words _

/-- A frame is legible if its children are. -/
lemma legible_frame {part : Frame} (children : AllLegible drift (Node.frame part).children) :
    Legible drift part.pieces := by
  obtain ⟨unit, start, stop, exclude, span⟩ := part
  simp only [Node.children, allLegible_append] at children
  simp only [Frame.pieces, List.cons_append, List.append_assoc]
  exact .keyword _ (.clause .BETWEEN ((legible_frameBound children.1).append
    (.clause .AND ((legible_frameBound children.2).append (.suffix _)))))

/-- A window is legible if its children are. -/
lemma legible_window {part : Window} (children : AllLegible drift (Node.window part).children) :
    Legible drift part.pieces := by
  obtain ⟨base, partition, order, frame, span⟩ := part
  simp only [Node.children, allLegible_append, allLegible_each, allLegible_maybe, Node.pieces,
    and_assoc] at children
  obtain ⟨partitions, orders, frames⟩ := children
  rw [Window.pieces_mk]
  refine .parens (.separated (fun _ legible => .blank legible) fun part mem => ?_)
  simp only [List.mem_append, List.mem_map, Option.mem_toList] at mem
  rcases mem with ((⟨written, -, rfl⟩ | isPartition) | ⟨order, isSome, rfl⟩) | ⟨frame, isSome, rfl⟩
  · exact .name written .nil
  · split at isPartition
    · exact absurd isPartition List.not_mem_nil
    · obtain rfl := List.mem_singleton.mp isPartition
      exact (Legible.words _).append (.blank (legible_exprs partitions))
  · exact orders order isSome
  · exact frames frame isSome

/-- A named window is legible if its definition is. -/
lemma legible_namedWindow {part : NamedWindow} (definition : Legible drift part.definition.pieces) :
    Legible drift part.pieces := by
  obtain ⟨written, window, span⟩ := part
  rw [NamedWindow.pieces]
  exact .name _ (.clause .AS definition)

/-! ## Tables -/

/-- The constraint of a join may follow a name. -/
lemma trailing_joinConstraint {constraint : Option JoinConstraint}
    (children : AllLegible drift (constraint.toList.flatMap ofJoinConstraint)) :
    Trailing drift (Render.optional constraint JoinConstraint.pieces) := by
  refine .optional fun inner isSome => ?_
  obtain rfl := isSome
  cases inner with
  | condition expr =>
    rw [JoinConstraint.pieces]
    exact .clause .ON (by simpa [ofJoinConstraint, Node.pieces] using children)
  | columns list =>
    rw [JoinConstraint.pieces]
    exact .clause .USING (.parens (.names list))

/-- A join may stand after the tables before it. -/
lemma trailing_join {part : Join} (children : AllLegible drift (Node.join part).children) :
    Trailing drift part.pieces := by
  obtain ⟨natural, kind, table, constraint, span⟩ := part
  simp only [Node.children, allLegible_cons, Node.pieces] at children
  rw [Join.pieces_mk, List.append_assoc]
  refine .append ?_ ((Trailing.blank children.1).append (trailing_joinConstraint children.2))
  split
  · exact .symbol (by simp) .nil
  · exact .blank (.after_wordsIf (.words _) _ _)

/-- A table reference is legible if its children are.

**Proof sketch.** By its kind. A name, an alias and the words about an index are legible with blanks
between them, parentheses need no blank before them, and a join may follow the table before it, as
`joined` says. -/
lemma legible_tableRef {part : TableRef} (children : AllLegible drift (ofTableRef part)) 
    (joined : ∀ join, Node.join join ∈ ofTableRef part → Trailing drift join.pieces) :
    Legible drift part.pieces := by
  cases part with
  | table schema name aliasName indexing =>
    cases indexing with
    | none =>
      simp only [TableRef.pieces, List.append_assoc]
      exact (Legible.qualified schema name).append (.append (.aliased aliasName) .nil)
    | some indexing =>
      simp only [TableRef.pieces, List.append_assoc]
      refine (Legible.qualified schema name).append (.append (.aliased aliasName) ?_)
      cases indexing with
      | indexedBy index =>
        exact .clause .INDEXED (.keyword .BY (.blank (.name index .nil)))
      | notIndexed => exact .clause .NOT (.keyword .INDEXED .nil)
  | subquery query aliasName =>
    simp only [ofTableRef, allLegible_cons, Node.pieces] at children
    rw [TableRef.pieces]
    exact .append (.parens children.1) (.aliased aliasName)
  | function schema name arguments aliasName =>
    simp only [ofTableRef, allLegible_each, Node.pieces] at children
    have call : Legible drift
        (.functionName name ::
          (parens (commas (Expr.listPieces arguments)) ++ aliased aliasName)) :=
      .functionName name (.append (.parens (legible_exprs children)) (.aliased aliasName))
    cases schema with
    | none =>
      simp only [TableRef.pieces, List.nil_append, List.cons_append]
      exact call
    | some schema =>
      simp only [TableRef.pieces, List.cons_append, List.nil_append]
      exact .dotted call schema (Legible.start_functionName name)
  | parenthesized inner =>
    simp only [ofTableRef, allLegible_cons, Node.pieces] at children
    rw [TableRef.pieces]
    exact .parens children.1
  | join left right =>
    simp only [ofTableRef, allLegible_cons, Node.pieces] at children
    rw [TableRef.pieces]
    exact children.1.append (joined right (by simp [ofTableRef]))

/-! ## Queries -/

/-- Common tables may stand before anything, as a blank follows them. -/
lemma legible_after_withClause {commonTables : Option WithClause} {pieces : List Piece}
    (each : ∀ clause ∈ commonTables, Legible drift clause.pieces)
    (legible : Legible drift pieces) :
    Legible drift (Render.withClause commonTables ++ pieces) := by
  cases commonTables with
  | none => exact legible
  | some clause =>
    simp only [Render.withClause, Render.optional, List.append_assoc, List.cons_append,
      List.nil_append]
    exact (each clause rfl).append (.blank legible)

/-- A result column is legible if its children are, and its code in Dart is written like such
code. -/
lemma legible_resultColumn {part : ResultColumn} (isWritten : IsWritten drift (.resultColumn part))
    (children : AllLegible drift (ofResultColumn part)) : Legible drift part.pieces := by
  cases part with
  | star =>
    rw [ResultColumn.pieces]
    exact legible_symbol .star (by simp)
  | tableStar table =>
    rw [ResultColumn.pieces]
    exact .dotted (legible_symbol .star (by simp)) table ⟨'*', [], rfl, rfl⟩
  | nestedStar table =>
    rw [ResultColumn.pieces]
    exact .dotted (legible_symbol .doubleStar fun _ => isWritten) table ⟨'*', ['*'], rfl, rfl⟩
  | expression expr aliasName mappedBy =>
    simp only [ofResultColumn, allLegible_cons, Node.pieces] at children
    rw [ResultColumn.pieces_expression, List.append_assoc]
    refine children.1.append (.append (.aliased aliasName) (.optional fun code isSome => ?_))
    exact .clause .MAPPED (.keyword .BY (.blank (isWritten code isSome).legible))
  | nestedQuery query aliasName =>
    simp only [ofResultColumn, allLegible_cons, Node.pieces] at children
    rw [ResultColumn.pieces]
    exact .name _ (.append (.parens children.1) (.aliased aliasName))

/-- A common table is legible if its query is. -/
lemma legible_commonTable {part : CommonTable} (query : Legible drift part.query.pieces) :
    Legible drift part.pieces := by
  obtain ⟨name, columns, materialized, rows, span⟩ := part
  have after : Legible drift ((match materialized with
      | some true => wordsIf true [.MATERIALIZED]
      | some false => wordsIf true [.NOT, .MATERIALIZED]
      | none => []) ++ parens rows.pieces) := by
    rcases materialized with - | - | -
    · exact .parens query
    · exact .after_wordsIf (.parens query) true _
    · exact .after_wordsIf (.parens query) true _
  have columns : Trailing drift (if columns.isEmpty then [] else parens (names columns)) := by
    split
    · exact .nil
    · exact .parens (.names _)
  rcases materialized with - | - | - <;>
  · simp only [CommonTable.pieces, List.append_assoc, List.cons_append]
    exact .name _ (.append columns (.clause .AS after))

/-- `WITH` is legible if its tables are. -/
lemma legible_withClause {part : WithClause}
    (tables : ∀ table ∈ part.tables, Legible drift table.pieces) : Legible drift part.pieces := by
  obtain ⟨recursive, list, span⟩ := part
  simp only [WithClause.pieces, List.cons_append, CommonTable.listPieces_eq_map]
  exact .keyword .WITH (.blank (.after_wordsIf (.mapped tables) _ _))

/-- A condition may follow a name. -/
lemma trailing_where {filter : Option Expr}
    (each : ∀ inner ∈ filter, Legible drift inner.pieces) : Trailing drift (whereClause filter) :=
  .optional fun inner isSome => .clause .WHERE (each inner isSome)

/-- `SELECT` is legible if its children are. -/
lemma legible_selectClause {part : SelectClause}
    (children : AllLegible drift (Node.selectClause part).children) :
    Legible drift part.pieces := by
  obtain ⟨distinct, columns, source, filter, groupBy, having, windows, span⟩ := part
  simp only [Node.children, allLegible_append, allLegible_each, allLegible_maybe, Node.pieces,
    and_assoc] at children
  obtain ⟨columns, sources, filters, groups, havings, windows⟩ := children
  simp only [SelectClause.pieces_mk, List.append_assoc, List.cons_append,
    ResultColumn.listPieces_eq_map, NamedWindow.listPieces_eq_map]
  refine .keyword .SELECT (.blank (.after_wordsIf ((Legible.mapped columns).append
    (.append (.optional fun table isSome => ?_) (.append (trailing_where filters)
      (.append ?_ (.append (.optional fun condition isSome => ?_) ?_))))) _ _))
  · exact .clause .FROM (sources table isSome)
  · split
    · exact .nil
    · exact .blank ((Legible.words _).append (.blank (legible_exprs groups)))
  · exact .clause .HAVING (havings condition isSome)
  · split
    · exact .nil
    · exact .clause .WINDOW (.mapped windows)

/-- `VALUES` is legible if its children are. -/
lemma legible_valuesClause {part : ValuesClause}
    (children : AllLegible drift (Node.valuesClause part).children) :
    Legible drift part.pieces := by
  obtain ⟨rows, span⟩ := part
  have each : ∀ row ∈ rows, ∀ expr ∈ row, Legible drift expr.pieces := by
    intro row isRow expr mem
    exact children (.expr expr) (List.mem_flatMap.mpr ⟨row, isRow, List.mem_map_of_mem mem⟩)
  rw [ValuesClause.pieces, ValuesClause.rowPieces_eq_map]
  exact .keyword .VALUES (.blank (.mapped fun row isRow => .parens (.mapped (each row isRow))))

/-- The pieces of the node of a member are those of the member. -/
lemma pieces_core (core : QueryCore) : core.node.pieces = core.pieces := by
  cases core <;> rfl

/-- A further member of a query is legible if the member is. -/
lemma legible_compoundPart {part : CompoundPart} (core : Legible drift part.core.pieces) :
    Legible drift part.pieces := by
  obtain ⟨operator, core, span⟩ := part
  rw [CompoundPart.pieces]
  exact (Legible.words _).append (.blank core)

/-- A limit is legible if its children are, and its placeholder is written like a variable. -/
lemma legible_limit {part : Limit} (isWritten : IsWritten drift (.limit part))
    (children : AllLegible drift (ofLimitKind part.kind)) : Legible drift part.pieces := by
  obtain ⟨kind, span⟩ := part
  cases kind with
  | expressions count offset =>
    simp only [ofLimitKind, allLegible_cons, allLegible_maybe, Node.pieces] at children
    rw [Limit.pieces, LimitKind.pieces_expressions]
    refine .keyword .LIMIT (.blank (children.1.append (.optional fun offset isSome => ?_)))
    exact .clause .OFFSET (children.2 offset isSome)
  | placeholder name =>
    have isWritten : (Variable.named .dollar name).IsWritten := isWritten
    rw [Limit.pieces, LimitKind.pieces]
    exact .keyword .LIMIT (.blank (legible_variable isWritten).legible)

/-- A query is legible if its children are. -/
lemma legible_query {part : Query} (children : AllLegible drift (Node.query part).children) :
    Legible drift part.pieces := by
  obtain ⟨commonTables, core, compounds, order, limit, span⟩ := part
  simp only [Node.children, allLegible_append, allLegible_each, allLegible_maybe, allLegible_cons,
    pieces_core, and_assoc] at children
  obtain ⟨tables, core, parts, orders, limits⟩ := children
  simp only [Query.pieces_mk, List.append_assoc, CompoundPart.listPieces_eq_flatMap]
  refine legible_after_withClause tables (core.append (.append (.flatMap fun part mem =>
    .blank (parts part mem)) (.append (.optional fun order isSome => ?_)
      (.optional fun limit isSome => ?_))))
  · exact .blank (orders order isSome)
  · exact .blank (limits limit isSome)

end Node

end SqlTree
