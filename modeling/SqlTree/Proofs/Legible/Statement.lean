import SqlTree.Proofs.Legible.Query
import SqlTree.Proofs.Walks

set_option autoImplicit false

/-!
# Written trees are scanned into their words

A tree is legible if all its nodes can be written: each node is legible if its children are.

## Main results

* `SqlTree.Node.legible` — a node is legible if its children are.
* `SqlTree.Node.legible_of_walk` — a tree is legible if all its nodes can be written.
-/

namespace SqlTree

open Render

namespace Node

variable {drift : Bool}

/-! ## Statements as nodes -/

/-- The pieces of the node of a statement about data are those of the statement. -/
lemma pieces_data (statement : DataStatement) : statement.node.pieces = statement.pieces := by
  cases statement <;> rfl

/-- The pieces of the node of a statement are those of the statement. -/
lemma pieces_statement (statement : Statement) : statement.node.pieces = statement.pieces := by
  cases statement with
  | data inner => exact pieces_data inner
  | _ => rfl

/-! ## Changes -/

/-- A column of an index is legible if its expression is. -/
lemma legible_indexedColumn {part : IndexedColumn} (expr : Legible drift part.expr.pieces) :
    Legible drift part.pieces :=
  expr.append (.suffix _)

/-- Names in parentheses, after a blank, unless there are none. -/
lemma trailing_names (list : List String) :
    Trailing drift (if list.isEmpty then [] else .blank :: parens (names list)) := by
  split
  · exact .nil
  · exact .blank (.parens (.names list))

/-- An assignment is legible if its value is. -/
lemma legible_assignment {part : Assignment} (value : Legible drift part.value.pieces) :
    Legible drift part.pieces := by
  have equals : Legible drift [.symbol .eq] := legible_symbol .eq (by simp)
  unfold Assignment.pieces
  refine .append ?_ (.blank (.cons equals (.blank value)))
  split
  · exact .name _ .nil
  · exact .parens (.names _)

/-- `RETURNING` may follow a name. -/
lemma trailing_returning {returning : Option Returning}
    (each : ∀ clause ∈ returning, Legible drift clause.pieces) :
    Trailing drift (returningClause returning) :=
  .optional fun clause isSome => .blank (each clause isSome)

/-- The target of a conflict clause is legible if its children are. -/
lemma legible_conflictTarget {part : ConflictTarget}
    (children : AllLegible drift (Node.conflictTarget part).children) :
    Legible drift part.pieces := by
  simp only [Node.children, allLegible_append, allLegible_each, allLegible_maybe] at children
  exact .append (.parens (.mapped children.1)) (trailing_where children.2)

/-- A conflict clause is legible if its children are. -/
lemma legible_upsert {part : Upsert} (children : AllLegible drift (Node.upsert part).children) :
    Legible drift part.pieces := by
  simp only [Node.children, allLegible_append, allLegible_maybe] at children
  obtain ⟨targets, updates⟩ := children
  refine .append
    (.append (.words _) (.optional fun target isSome => .blank (targets target isSome)))
    (.blank ?_)
  cases isAction : part.action with
  | nothing => exact .words _
  | update assignments filter =>
    rw [isAction] at updates
    simp only [ofUpsertAction, allLegible_append, allLegible_each, allLegible_maybe] at updates
    exact .append (.append (.words _) (.blank (.mapped updates.1))) (trailing_where updates.2)

/-- The source of an insertion is legible if its children are, and its placeholder is written like a
variable. -/
lemma legible_insertSource {source : InsertSource}
    (isWritten : ∀ name span, source = .placeholder name span →
      (Variable.named .dollar name).IsWritten)
    (children : AllLegible drift (ofInsertSource source)) : Legible drift source.pieces := by
  cases source with
  | values | query =>
    simp only [ofInsertSource, allLegible_cons] at children
    exact children.1
  | defaultValues => exact .words _
  | placeholder name span => exact (legible_variable (isWritten name span rfl)).legible

/-- An insertion is legible if its children are. -/
lemma legible_insert {part : Insert} (isWritten : IsWritten drift (.insert part))
    (children : AllLegible drift (Node.insert part).children) : Legible drift part.pieces := by
  simp only [Node.children, allLegible_append, allLegible_each, allLegible_maybe,
    and_assoc] at children
  obtain ⟨tables, source, upserts, returnings⟩ := children
  have mode : Legible drift part.mode.pieces := by
    cases part.mode <;> exact .words _
  simp only [Insert.pieces, List.append_assoc, List.cons_append]
  refine legible_after_withClause tables (mode.append (.blank (.keyword .INTO (.blank
    ((Legible.qualified _ _).append (.append (.aliased _) (.append (trailing_names _)
      (.blank ((legible_insertSource isWritten source).append
        (.append (.flatMap fun upsert mem => ?_)
        (trailing_returning returnings)))))))))))
  exact .blank (upserts upsert mem)

/-- An update is legible if its children are. -/
lemma legible_update {part : Update} (children : AllLegible drift (Node.update part).children) :
    Legible drift part.pieces := by
  simp only [Node.children, allLegible_append, allLegible_each, allLegible_maybe,
    and_assoc] at children
  obtain ⟨tables, assignments, sources, filters, returnings⟩ := children
  have changed : Legible drift (qualified part.schema part.table ++ (aliased part.aliasName ++
      (.blank :: .keyword .SET :: .blank :: (commas (part.assignments.map Assignment.pieces) ++
        (Render.optional part.source
            (fun table => .blank :: .keyword .FROM :: .blank :: table.pieces) ++
          (whereClause part.filter ++ returningClause part.returning)))))) := by
    refine .append (.qualified _ _) (.append (.aliased _) (.clause .SET (.append
      (.mapped assignments) (.append (.optional fun table isSome => ?_) (.append
        (trailing_where filters) (trailing_returning returnings))))))
    exact .clause .FROM (sources table isSome)
  simp only [Update.pieces, List.append_assoc, List.cons_append]
  refine legible_after_withClause tables (.keyword .UPDATE (.blank ?_))
  cases part.conflict with
  | none => exact changed
  | some conflict => exact .after_wordsIf changed true [.OR, conflict.keyword]

/-- A deletion is legible if its children are. -/
lemma legible_delete {part : Delete} (children : AllLegible drift (Node.delete part).children) :
    Legible drift part.pieces := by
  simp only [Node.children, allLegible_append, allLegible_maybe, and_assoc] at children
  obtain ⟨tables, filters, returnings⟩ := children
  simp only [Delete.pieces, List.append_assoc, List.cons_append]
  exact legible_after_withClause tables ((Legible.words _).append (.blank
    ((Legible.qualified _ _).append (.append (.aliased _) (.append (trailing_where filters)
      (trailing_returning returnings))))))

/-! ## Constraints -/

/-- Whether a foreign key may be deferred is written in keywords, which are legible. -/
lemma legible_deferrable (deferrable : Deferrable) : Legible drift deferrable.pieces := by
  refine .after_wordsIf (.keyword .DEFERRABLE ?_) _ _
  split
  · exact .blank (.words _)
  · exact .blank (.words _)
  · exact .nil

/-- A foreign key is legible: it has names and keywords. -/
lemma legible_foreignKey (key : ForeignKey) : Legible drift key.pieces := by
  simp only [ForeignKey.pieces, List.append_assoc, List.cons_append]
  exact .keyword .REFERENCES (.blank (.name _ (.append (trailing_names _) (.append
    (.flatMap fun _ _ => .blank (.words _)) (.optional fun deferrable _ =>
      .blank (legible_deferrable deferrable))))))

/-- The name of a constraint may stand before anything, as a blank follows it. -/
lemma legible_after_constraintName {pieces : List Piece} (legible : Legible drift pieces)
    (name : Option String) : Legible drift (constraintName name ++ pieces) := by
  cases name with
  | none => exact legible
  | some written => exact .keyword .CONSTRAINT (.blank (.name written (.blank legible)))

/-- The kind of a constraint of a column is legible if its children are, and its code in Dart is
written like such code. -/
lemma legible_columnConstraintKind {kind : ColumnConstraintKind}
    (isWritten : ∀ code, kind = .mappedBy code → IsDart drift code)
    (children : AllLegible drift (ofColumnConstraintKind kind)) : Legible drift kind.pieces := by
  cases kind with
  | primaryKey direction conflict autoincrement =>
    exact .append (.append (.append (.words _) (.suffix _)) (.suffix _)) (.suffix _)
  | notNull conflict => exact .append (.words _) (.suffix _)
  | null => exact .words _
  | unique conflict => exact .append (.words _) (.suffix _)
  | check expr =>
    exact .keyword .CHECK
      (.blank (.parens (by simpa [ofColumnConstraintKind, Node.pieces] using children)))
  | default expr =>
    exact .keyword .DEFAULT (.blank (by simpa [ofColumnConstraintKind, Node.pieces] using children))
  | collate collation => exact .keyword .COLLATE (.blank (.name collation .nil))
  | foreignKey key => exact legible_foreignKey key
  | generated expr storage always =>
    have value : Legible drift expr.pieces := by
      simpa [ofColumnConstraintKind, Node.pieces] using children
    simp only [ColumnConstraintKind.pieces, List.append_assoc, List.cons_append]
    exact .after_wordsIf (.keyword .AS (.blank (.append (.parens value) (.suffix _)))) _ _
  | mappedBy code => exact .append (.words _) (.blank (isWritten code rfl).legible)
  | jsonKey key => exact .append (.words _) (.blank (.name key .nil))
  | dartName name => exact .keyword .AS (.blank (.name name .nil))

/-- The kind of a constraint of a table is legible if its children are. -/
lemma legible_tableConstraintKind {kind : TableConstraintKind}
    (children : AllLegible drift (ofTableConstraintKind kind)) : Legible drift kind.pieces := by
  cases kind with
  | primaryKey columns conflict =>
    simp only [ofTableConstraintKind, allLegible_each] at children
    exact .append (.append (.words _) (.blank (.parens (.mapped children)))) (.suffix _)
  | unique columns conflict =>
    simp only [ofTableConstraintKind, allLegible_each] at children
    exact .append (.keyword .UNIQUE (.blank (.parens (.mapped children)))) (.suffix _)
  | check expr =>
    exact .keyword .CHECK
      (.blank (.parens (by simpa [ofTableConstraintKind, Node.pieces] using children)))
  | foreignKey columns key =>
    exact .append (.append (.words _) (.blank (.parens (.names columns))))
      (.blank (legible_foreignKey key))

/-- The name of a type is legible if its words and its arguments are written like such. -/
lemma legible_typeName {part : TypeName} (isWritten : IsWritten drift (.typeName part)) :
    Legible drift part.pieces := by
  obtain ⟨⟨_, name⟩, arguments⟩ := isWritten
  refine .cons (legible_verbatim name) ?_
  split
  · exact .nil
  · refine .parens (.mapped fun argument mem => ?_)
    obtain ⟨_, isWhole⟩ := arguments argument mem
    exact legible_verbatim isWhole

/-- The definition of a column is legible if its children are. -/
lemma legible_columnDefinition {part : ColumnDefinition}
    (children : AllLegible drift (Node.columnDefinition part).children) :
    Legible drift part.pieces := by
  simp only [Node.children, allLegible_append, allLegible_each, allLegible_maybe] at children
  simp only [ColumnDefinition.pieces, List.cons_append]
  exact .name _ (.append (.optional fun type isSome => .blank (children.1 type isSome))
    (.flatMap fun constraint mem => .blank (children.2 constraint mem)))

/-! ## Creations -/

/-- The words of a creation may stand before anything, as a blank follows them. -/
lemma legible_after_creation {pieces : List Piece} (legible : Legible drift pieces)
    (temporary : Bool) (object : List Keyword) (ifNotExists : Bool) :
    Legible drift (creation temporary object ifNotExists ++ pieces) := by
  simp only [creation, List.append_assoc]
  exact .after_wordsIf (.after_wordsIf (.after_wordsIf (.after_wordsIf legible _ _) _ _) _ _) _ _

/-- The name of a row class is legible. -/
lemma legible_rowClass (part : RowClass) : Legible drift part.pieces :=
  .keyword _ (.blank (.name _ .nil))

/-- The name of a row class may follow a name. -/
lemma trailing_rowClass (rowClass : Option RowClass) :
    Trailing drift (Render.optional rowClass fun rowClass => .blank :: rowClass.pieces) :=
  .optional fun rowClass _ => .blank (legible_rowClass rowClass)

/-- The definition of a table is legible if its children are: columns and constraints in
parentheses, and options after them. -/
lemma legible_tableDefinition {definition : TableDefinition}
    (children : AllLegible drift (ofTableDefinition definition)) :
    Legible drift definition.pieces := by
  simp only [ofTableDefinition, allLegible_append, allLegible_each, and_assoc] at children
  obtain ⟨columns, constraints, -⟩ := children
  have further : Trailing drift (definition.constraints.flatMap fun constraint =>
      .symbol .comma :: .blank :: constraint.pieces) :=
    .flatMap fun constraint mem => .symbol (by simp) (.blank (constraints constraint mem))
  unfold TableDefinition.pieces
  refine .append (.append (.parens (.append (.mapped columns) further)) ?_) (trailing_rowClass _)
  · have each : ∀ part ∈ (if definition.withoutRowid then
        [[Piece.keyword .WITHOUT, .blank, .name "ROWID"]] else []) ++
          (if definition.strict then [[.keyword .STRICT]] else []), Legible drift part := by
      intro part mem
      rcases List.mem_append.mp mem with isOption | isOption <;> split at isOption
      · obtain rfl := List.mem_singleton.mp isOption
        exact .keyword .WITHOUT (.blank (.name _ .nil))
      · exact absurd isOption List.not_mem_nil
      · obtain rfl := List.mem_singleton.mp isOption
        exact .keyword .STRICT .nil
      · exact absurd isOption List.not_mem_nil
    generalize (if definition.withoutRowid then _ else []) ++ _ = options at each
    split
    · exact .nil
    · exact .blank (.commas each)

/-- The creation of a table is legible if its children are. -/
lemma legible_createTable {part : CreateTable}
    (children : AllLegible drift (Node.createTable part).children) : Legible drift part.pieces := by
  simp only [CreateTable.pieces, List.append_assoc]
  refine legible_after_creation ((Legible.qualified _ _).append ?_) _ _ _
  split
  · next rows isSome =>
    simp only [Node.children, allLegible_append, allLegible_maybe] at children
    exact .clause .AS (children.1.2 rows isSome)
  · next isNone =>
    rw [Node.children_createTable_of_asSelect isNone] at children
    exact .blank (legible_tableDefinition children)

/-- The creation of a virtual table is legible if its arguments are written like such. -/
lemma legible_createVirtualTable {part : CreateVirtualTable}
    (isWritten : IsWritten drift (.createVirtualTable part)) : Legible drift part.pieces := by
  simp only [CreateVirtualTable.pieces, List.append_assoc]
  refine legible_after_creation ((Legible.qualified _ _).append
    (.clause .USING (.name _ ?_))) _ _ _
  split
  · exact .nil
  · refine .parens (.mapped fun argument mem => ?_)
    obtain ⟨_, isWhole⟩ := isWritten argument mem
    exact legible_verbatim isWhole

/-- The creation of a view is legible if its children are. -/
lemma legible_createView {part : CreateView}
    (children : AllLegible drift (Node.createView part).children) : Legible drift part.pieces := by
  simp only [Node.children, allLegible_append, allLegible_cons] at children
  simp only [CreateView.pieces, List.append_assoc]
  exact legible_after_creation ((Legible.qualified _ _).append (.append (trailing_names _)
    (.append (trailing_rowClass _) (.clause .AS children.2.1)))) _ _ _

/-- The event of a trigger is legible. -/
lemma legible_triggerEvent (event : TriggerEvent) : Legible drift event.pieces := by
  cases event with
  | update columns =>
    rw [TriggerEvent.pieces]
    split
    · exact .words _
    · exact .append (.words _) (.blank (.names columns))
  | delete | insert => exact .words _

/-- The creation of a trigger is legible if its children are. -/
lemma legible_createTrigger {part : CreateTrigger}
    (children : AllLegible drift (Node.createTrigger part).children) :
    Legible drift part.pieces := by
  obtain ⟨temporary, ifNotExists, schema, name, timing, event, table, forEachRow, condition, body,
    span⟩ := part
  simp only [Node.children, allLegible_append, allLegible_maybe, allLegible_each,
    pieces_statement] at children
  obtain ⟨conditions, statements⟩ := children
  have statements : Trailing drift (Statement.bodyPieces body) := by
    rw [Statement.bodyPieces_eq_flatMap]
    exact .flatMap fun statement mem =>
      .blank ((statements statement mem).append (.symbol (by simp) .nil))
  have condition : Trailing drift (Render.optional condition fun condition =>
      .blank :: .keyword .WHEN :: .blank :: condition.pieces) :=
    .optional fun condition isSome => .clause .WHEN (conditions condition isSome)
  have body := Trailing.blank
    (.keyword .BEGIN (statements.append (.blank (.keyword .END .nil))))
  have event : Legible drift event.pieces := legible_triggerEvent _
  simp only [CreateTrigger.pieces, List.append_assoc, List.cons_append, List.nil_append]
  exact legible_after_creation ((Legible.qualified _ _).append (.append (.suffix _)
    (.blank (event.append (.clause .ON (.name _ (.append (.suffix _)
      (condition.append body)))))))) _ _ _

/-- The creation of an index is legible if its children are. -/
lemma legible_createIndex {part : CreateIndex}
    (children : AllLegible drift (Node.createIndex part).children) : Legible drift part.pieces := by
  simp only [Node.children, allLegible_append, allLegible_maybe, allLegible_each] at children
  simp only [CreateIndex.pieces, List.append_assoc, List.cons_append, List.nil_append]
  exact legible_after_creation ((Legible.qualified _ _).append (.blank (.keyword .ON (.blank
    (.name _ (.blank
      (.append (.parens (.mapped children.1)) (trailing_where children.2)))))))) _ _ _

/-! ## Drift files -/

/-- An import is legible: it has a text in quotes. -/
lemma legible_import (part : Import) : Legible drift part.pieces := by
  have word : Alone drift "import".toList (.ofWord "import") :=
    Literal.alone_word (by simp) (List.all_eq_true.mp (by decide +kernel))
  exact (legible_verbatim word.isWhole).append
    (.blank (legible_of_alone (Literal.alone_string part.uri) rfl))

/-- A hint about a variable is legible if its children are, and its variable is written like one. -/
lemma legible_statementParameter {part : StatementParameter}
    (isWritten : IsWritten drift (.statementParameter part))
    (children : AllLegible drift (ofStatementParameter part)) : Legible drift part.pieces := by
  cases part with
  | variableType which required type orNull =>
    simp only [ofStatementParameter, allLegible_maybe] at children
    refine .after_wordsIf (.cons (legible_variable isWritten).legible
      (.optional fun type isSome => ?_)) _ _
    exact .append (.clause .AS (children type isSome)) (.suffix _)
  | defaultValue name value =>
    simp only [ofStatementParameter, allLegible_cons] at children
    have isWritten : (Variable.named .dollar name).IsWritten := isWritten
    have equals : Legible drift [.symbol .eq] := legible_symbol .eq (by simp)
    exact .cons (legible_variable isWritten).legible (.blank (.cons equals (.blank children.1)))

/-- A statement may stand after a colon, as a blank stands between them. -/
lemma trailing_colon {pieces : List Piece} (legible : Legible drift pieces) :
    Trailing drift (.symbol .colon :: .blank :: pieces) := by
  have colon : Legible drift [.symbol .colon] := legible_symbol .colon (by simp)
  refine ⟨.cons colon (.blank legible), fun c head => ?_⟩
  obtain rfl : ':' = c := by simpa [Piece.text, Symbol.text] using head
  exact ⟨by decide, by decide⟩

/-- A named statement is legible if its children are. -/
lemma legible_declared {part : DeclaredStatement}
    (children : AllLegible drift (Node.declared part).children) : Legible drift part.pieces := by
  simp only [Node.children, allLegible_append, allLegible_each, allLegible_cons,
    pieces_statement] at children
  have parameters : Trailing drift (if part.parameters.isEmpty then []
      else parens (commas (part.parameters.map StatementParameter.pieces))) := by
    split
    · exact .nil
    · exact .parens (.mapped children.1)
  simp only [DeclaredStatement.pieces, List.append_assoc, List.cons_append]
  exact .name _ (parameters.append (.append (.aliased _) (trailing_colon children.2.1)))

/-- An entry of a drift file is legible if its node is. -/
lemma legible_driftEntry {entry : DriftEntry} (legible : Legible drift entry.node.pieces) :
    Legible drift entry.pieces := by
  cases entry with
  | imported | declared => exact legible
  | onCreate statement =>
    rw [DriftEntry.node, pieces_statement] at legible
    have isWritten : (Variable.named .at "create").IsWritten :=
      ⟨by simp, List.all_eq_true.mp (by decide +kernel)⟩
    exact .cons (legible_variable isWritten).legible (trailing_colon legible)
  | plain statement =>
    rw [DriftEntry.node, pieces_statement] at legible
    exact legible

/-- Lists of entries are legible: each one ends with a semicolon and a line end. -/
lemma legible_lines {α : Type} {list : List α} {part : α → List Piece}
    (each : ∀ value ∈ list, Legible drift (part value)) :
    Legible drift (list.flatMap fun value => part value ++ [.symbol .semicolon, .lineEnd]) := by
  induction list with
  | nil => exact .nil
  | cons first rest ih =>
    have others := ih fun value mem => each value (List.mem_cons_of_mem _ mem)
    rw [List.flatMap_cons, List.append_assoc]
    exact (each first List.mem_cons_self).append
      (.symbol (by simp) (Trailing.lineEnd others).legible)

/-! ## All nodes -/

/-- **A node is legible** if it can be written and its children are legible.

**Proof sketch.** By the kind of the node: each one has its lemma, for which the children are those
of the node. Kinds with few parts are put together here. -/
theorem legible {node : Node} (isWritten : node.IsWritten drift)
    (children : AllLegible drift node.children)
    (opens : ∀ child ∈ node.children, child.Opens)
    (joined : ∀ join, Node.join join ∈ node.children → Trailing drift join.pieces) :
    Legible drift node.pieces := by
  cases node with
  | expr part => exact legible_expr isWritten children opens
  | query part => exact legible_query children
  | insert part => exact legible_insert isWritten children
  | update part => exact legible_update children
  | delete part => exact legible_delete children
  | createTable part => exact legible_createTable children
  | createVirtualTable part => exact legible_createVirtualTable isWritten
  | createView part => exact legible_createView children
  | createTrigger part => exact legible_createTrigger children
  | createIndex part => exact legible_createIndex children
  | withClause part =>
    simp only [Node.children, allLegible_each] at children
    exact legible_withClause children
  | commonTable part =>
    simp only [Node.children, allLegible_cons] at children
    exact legible_commonTable children.1
  | selectClause part => exact legible_selectClause children
  | valuesClause part => exact legible_valuesClause children
  | compoundPart part =>
    simp only [Node.children, allLegible_cons, pieces_core] at children
    exact legible_compoundPart children.1
  | resultColumn part => exact legible_resultColumn isWritten children
  | tableRef part => exact legible_tableRef children joined
  | join part => exact (trailing_join children).legible
  | whenClause part =>
    obtain ⟨condition, result, span⟩ := part
    simp only [Node.children, allLegible_cons] at children
    simp only [Node.pieces, WhenClause.pieces]
    exact .append (.keyword .WHEN (.blank children.1)) (.clause .THEN children.2.1)
  | orderBy part => exact legible_orderBy children
  | orderingItem part => exact legible_orderingItem isWritten children
  | limit part => exact legible_limit isWritten children
  | window part => exact legible_window children
  | namedWindow part =>
    simp only [Node.children, allLegible_cons] at children
    exact legible_namedWindow children.1
  | frame part => exact legible_frame children
  | typeName part => exact legible_typeName isWritten
  | assignment part =>
    simp only [Node.children, allLegible_cons] at children
    exact legible_assignment children.1
  | upsert part => exact legible_upsert children
  | conflictTarget part => exact legible_conflictTarget children
  | returning part =>
    simp only [Node.children, allLegible_each] at children
    exact .keyword .RETURNING (.blank (.mapped children))
  | columnDefinition part => exact legible_columnDefinition children
  | columnConstraint part =>
    exact legible_after_constraintName (legible_columnConstraintKind isWritten children) _
  | tableConstraint part =>
    exact legible_after_constraintName (legible_tableConstraintKind children) _
  | foreignKey part => exact legible_foreignKey part
  | indexedColumn part =>
    simp only [Node.children, allLegible_cons] at children
    exact legible_indexedColumn children.1
  | rowClass part => exact legible_rowClass part
  | driftFile part =>
    simp only [Node.children, allLegible_each] at children
    exact legible_lines fun entry mem => legible_driftEntry (children entry mem)
  | imported part => exact legible_import part
  | declared part => exact legible_declared children
  | statementParameter part => exact legible_statementParameter isWritten children

/-! ## Trees -/

/-- A node opens as it should if all nodes of its walk can be written. -/
lemma opens_of_walk {node : Node} (isWritten : ∀ inner ∈ node.walk, inner.IsWritten drift) :
    node.Opens := by
  have below : ∀ child ∈ node.children, child.Opens := fun child isChild =>
    opens_of_walk fun inner mem => isWritten inner (mem_walk_of_child isChild mem)
  cases node with
  | expr part => exact opens_expr (isWritten _ (self_mem_walk _)) below
  | _ => trivial
termination_by sizeOf node
decreasing_by exact sizeOf_lt_of_mem_children isChild

/-- **A tree is legible** if all its nodes can be written.

**Proof sketch.** Every node is legible if its children are, and all of them are smaller. A join has
to stand after the tables before it, and does so as it starts with a comma or a blank. -/
theorem legible_of_walk {node : Node} (isWritten : ∀ inner ∈ node.walk, inner.IsWritten drift) :
    Legible drift node.pieces := by
  have below {child : Node} (isChild : child ∈ node.children) :
      ∀ inner ∈ child.walk, inner.IsWritten drift :=
    fun inner mem => isWritten inner (mem_walk_of_child isChild mem)
  refine legible (isWritten _ node.self_mem_walk)
    (fun child isChild => legible_of_walk (below isChild))
    (fun child isChild => opens_of_walk (below isChild)) fun join isJoin => ?_
  exact trailing_join fun child isChild =>
    legible_of_walk fun inner mem => below isJoin inner (mem_walk_of_child isChild mem)
termination_by sizeOf node
decreasing_by
  · exact sizeOf_lt_of_mem_children isChild
  · exact Nat.lt_trans (sizeOf_lt_of_mem_children isChild) (sizeOf_lt_of_mem_children isJoin)

end Node

end SqlTree
