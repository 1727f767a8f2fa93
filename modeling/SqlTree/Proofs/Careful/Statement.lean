import SqlTree.Proofs.Bounds.Statement
import SqlTree.Proofs.Careful.Query

set_option autoImplicit false

/-!
# Careful parsers of statements

The parser of statements is careful over careful rules, and so are the parsers of its parts: of
changes of rows, of constraints and columns, and of whatever is created.

## Main results

* `SqlTree.Grammar.dataStatement_careful`, `SqlTree.Grammar.creation_careful` — the two kinds of
  statements.
* `SqlTree.Grammar.statement_careful` — statements over careful rules.
-/

namespace SqlTree.Grammar

open SqlTree.Parser

variable {S : Surroundings} {cursor : Cursor} {rules : Rules}

/-! ## Parts of changes -/

/-- A way to resolve conflicts is careful: it is taken after it was looked up. -/
lemma conflict_careful : Careful S conflict fun _ => True := by
  refine .current (.current fun token kind => ?_) fun cursor reached => ?_
  · rw [kind]
    exact .of_unexpected _
  · split
    · next resolution found =>
      exact .take reached (.of_found rfl (fun _ => rfl) found) fun _ _ => .of_pure trivial
    · exact .of_unexpected _

section

variable (careful : rules.Careful S)

include careful

/-- A list of indexed columns is careful. -/
lemma indexedColumns_careful : Careful S (indexedColumns rules) fun _ => True := by
  have column : Careful S (indexedColumn rules) fun _ => True := by
    refine .skip (expr_careful careful) fun expr => ?_
    refine .skip direction_careful fun direction => ?_
    exact .returns
  exact .commaSeparated column _

/-- A list of assignments is careful, each to a column or to columns in parentheses. -/
lemma assignments_careful : Careful S (assignments rules) fun _ => True := by
  have value (start : Span) (columns : List String) : Careful S (do
      let _ ← expectSymbol .eq
      let value ← rules.expr
      return (⟨columns, value, ← spanFrom start⟩ : Assignment)) fun _ => True := by
    refine .skip (.expectSymbol _) fun _ => ?_
    refine .skip (expr_careful careful) fun value => ?_
    exact .returns
  have one : Careful S (assignment rules) fun _ => True := by
    refine .here (fun _ => .skip fun _ => .ite (.bind .parenthesized) (.bind .identifier))
      fun start _ => .ifSees (.atSymbol (by simp)) (fun cursor reached _ => ?_) ?_
    · exact Careful.skip columnNames_careful (fun _ => value start _) reached
    · exact .skip .identifier fun _ => value start _
  exact .commaSeparated one _

/-- `RETURNING` is careful: the required feature is complained about at the keyword. -/
lemma optionalReturning_careful : Careful S (optionalReturning rules) fun _ => True := by
  refine .whenSeen (.atKeyword _) fun cursor reached at_ => ?_
  have proper : cursor.current.IsProper := .of_isKeyword at_
  refine .here (Cursor.ahead_of_proper (reached.ends S.ends) proper) ?_
  refine .require reached.begins ?_
  refine .take reached proper fun _ _ => ?_
  refine .skip (resultColumns_careful careful) fun columns => ?_
  exact .returns

/-! ## Insertions -/

omit careful in
/-- `REPLACE` and `INSERT OR` are careful. -/
lemma insertMode_careful : Careful S insertMode fun _ => True := by
  unfold insertMode
  refine .skip (.eatKeyword _) fun isReplace => .ite (.of_pure trivial) ?_
  refine .skip (.expectKeyword _) fun _ => ?_
  refine .skip (.eatKeyword _) fun isOr => .ite ?_ (.of_pure trivial)
  exact .skip conflict_careful fun _ => .of_pure trivial

/-- The source of an insertion is careful. The drift extensions are only asked for at a dollar name,
and in plain SQL such a name is unexpected. -/
lemma insertSource_careful : Careful S (insertSource rules) fun _ => True := by
  refine .view (.view fun view kind => ?_) (fun _ view longer near same _ => ?_)
    fun cursor reached => ?_
  · simp only [View.atKeyword_end kind, View.atAnyKeyword_end kind, View.dollarName?, kind,
      Bool.false_eq_true, if_false]
    exact .of_unexpected _
  · simp only [near.atKeyword, near.atAnyKeyword, View.dollarName?, same]
  · dsimp only
    refine .ite (Careful.skip (valuesClause_careful careful) (fun _ => .of_pure trivial) reached) ?_
    refine .ite (Careful.skip careful.query (fun _ => .of_pure trivial) reached) ?_
    split
    · next at_ =>
      refine .take reached (.of_isKeyword at_) fun _ _ => ?_
      refine .skip (.expectKeyword _) fun _ => ?_
      exact .returns
    · split
      · next name dollar =>
        have proper : cursor.current.IsProper := .of_kind (kind_of_dollarName dollar) rfl
        refine .isDrift (.inl (by simp [dollar])) fun drift => .ite ?_ (.of_unexpected _)
        refine .take reached proper fun _ _ => ?_
        exact .of_pure trivial
      · exact .of_unexpected _

/-- The target of `ON CONFLICT` is careful. -/
lemma conflictTarget_careful : Careful S (conflictTarget rules) fun _ => True := by
  unfold conflictTarget
  refine .here (fun _ => .bind .parenthesized) fun start _ => ?_
  refine .skip (.parenthesized (indexedColumns_careful careful)) fun columns => ?_
  refine .skip (.afterKeyword (expr_careful careful)) fun filter => ?_
  exact .returns

/-- The action of `ON CONFLICT` is careful. -/
lemma upsertAction_careful : Careful S (upsertAction rules) fun _ => True := by
  unfold upsertAction
  refine .skip (.expectKeyword _) fun _ => ?_
  refine .skip (.eatKeyword _) fun isNothing => .ite (.of_pure trivial) ?_
  refine .skip (.expectKeywords _) fun _ => ?_
  refine .skip (assignments_careful careful) fun assignments => ?_
  refine .skip (.afterKeyword (expr_careful careful)) fun filter => ?_
  exact .of_pure trivial

/-- `ON CONFLICT` after an insertion is careful: the required feature is complained about at its
first token. -/
lemma upsert_careful : Careful S (upsert rules) fun _ => True := by
  unfold upsert
  refine .here (fun _ => .skip fun _ => .bind (.bind (.expectKeyword _))) fun start begins => ?_
  refine .skip (.require begins) fun _ => ?_
  refine .skip (.expectKeywords _) fun _ => ?_
  refine .skip (.whenever (.atSymbol (by simp)) (conflictTarget_careful careful)) fun target => ?_
  refine .skip (upsertAction_careful careful) fun action => ?_
  exact .returns

/-- An insertion is careful. -/
lemma insert_careful (commonTables : Option WithClause) (start : Span) :
    Careful S (insert rules commonTables start) fun _ => True := by
  unfold insert
  refine .skip insertMode_careful fun mode => ?_
  refine .skip (.expectKeyword _) fun _ => ?_
  refine .skip qualifiedName_careful fun ⟨schema, table⟩ => ?_
  refine .skip asName_careful fun aliasName => ?_
  refine .skip optionalColumnNames_careful fun columns => ?_
  refine .skip (insertSource_careful careful) fun source => ?_
  refine .skip (.many (.whenever (.atKeywords _ _) (upsert_careful careful)) _) fun upserts => ?_
  refine .skip (optionalReturning_careful careful) fun returning => ?_
  exact .returns

/-! ## Updates and deletions -/

/-- An update is careful. -/
lemma update_careful (commonTables : Option WithClause) (start : Span) :
    Careful S (update rules commonTables start) fun _ => True := by
  unfold update
  refine .skip (.expectKeyword _) fun _ => ?_
  refine .skip (.afterKeyword conflict_careful) fun onConflict => ?_
  refine .skip qualifiedName_careful fun ⟨schema, table⟩ => ?_
  refine .skip asName_careful fun aliasName => ?_
  refine .skip (.expectKeyword _) fun _ => ?_
  refine .skip (assignments_careful careful) fun assignments => ?_
  refine .skip (.afterKeyword careful.tableRef) fun source => ?_
  refine .skip (.afterKeyword (expr_careful careful)) fun filter => ?_
  refine .skip (optionalReturning_careful careful) fun returning => ?_
  exact .returns

/-- A deletion is careful. -/
lemma delete_careful (commonTables : Option WithClause) (start : Span) :
    Careful S (delete rules commonTables start) fun _ => True := by
  unfold delete
  refine .skip (.expectKeywords _) fun _ => ?_
  refine .skip qualifiedName_careful fun ⟨schema, table⟩ => ?_
  refine .skip asName_careful fun aliasName => ?_
  refine .skip (.afterKeyword (expr_careful careful)) fun filter => ?_
  refine .skip (optionalReturning_careful careful) fun returning => ?_
  exact .returns

/-! ## Statements that read or change rows -/

omit careful in
/-- A statement about data, after its common tables, accepts nothing at the end of input. -/
lemma dataStatementAfter_solid (commonTables : Option WithClause) (start : Span)
    (expected : String) : Solid (dataStatementAfter rules commonTables start expected) :=
  .view fun view kind => by
    simp only [View.atAnyKeyword_end kind, View.atKeyword_end kind, Bool.false_eq_true, if_false]
    exact .of_unexpected _

/-- A statement about data is careful after its common tables: its first keyword says which one it
is. -/
lemma dataStatementAfter_careful (commonTables : Option WithClause) (start : Span)
    (expected : String) :
    Careful S (dataStatementAfter rules commonTables start expected) fun _ => True := by
  refine .view (dataStatementAfter_solid _ start expected) (fun _ view longer near _ _ => ?_)
    fun cursor reached => ?_
  · simp only [near.atKeyword, near.atAnyKeyword]
  · refine .ite (Careful.skip (queryAfter_careful careful _ start) (fun _ => .of_pure trivial)
      reached) ?_
    refine .ite (Careful.skip (insert_careful careful _ start) (fun _ => .of_pure trivial)
      reached) ?_
    refine .ite (Careful.skip (update_careful careful _ start) (fun _ => .of_pure trivial)
      reached) ?_
    exact .ite (Careful.skip (delete_careful careful _ start) (fun _ => .of_pure trivial)
      reached) (.of_unexpected _)

/-- A statement about data is careful. -/
lemma dataStatement_careful (expected : String) :
    Careful S (dataStatement rules expected) fun _ => True := by
  refine .here (fun start => .skip fun isWith => ?_) fun start _ => ?_
  · exact .ite (.bind (.bind (.expectKeyword _))) (dataStatementAfter_solid _ start _)
  · refine .ifSees (.atKeyword _) (fun cursor reached _ => ?_)
      (dataStatementAfter_careful careful _ start _)
    exact Careful.skip (withClause_careful careful)
      (fun commonTables => dataStatementAfter_careful careful _ start _) reached

/-! ## Foreign keys -/

omit careful in
/-- `ON CONFLICT` in a constraint is careful. -/
lemma optionalOnConflict_careful : Careful S optionalOnConflict fun _ => True :=
  .whenSeen (.atKeywords _ _) fun _ reached at_ => .keywords reached at_ conflict_careful

omit careful in
/-- The name of a constraint is careful. -/
lemma constraintName_careful : Careful S constraintName fun _ => True :=
  .afterKeyword .identifier

omit careful in
/-- What is done to a row that refers to another one is careful. -/
lemma referentialAction_careful : Careful S referentialAction fun _ => True := by
  unfold referentialAction
  refine .skip (.eatKeyword _) fun isSet => .ite ?_ ?_
  · refine .skip (.eatKeyword _) fun isNull => .ite (.of_pure trivial) ?_
    refine .skip (.expectKeyword _) fun _ => ?_
    exact .of_pure trivial
  · refine .skip (.eatKeyword _) fun isCascade => .ite (.of_pure trivial) ?_
    refine .skip (.eatKeyword _) fun isRestrict => .ite (.of_pure trivial) ?_
    refine .skip (.eatKeyword _) fun isNo => .ite ?_ (.of_unexpected _)
    refine .skip (.expectKeyword _) fun _ => ?_
    exact .of_pure trivial

omit careful in
/-- A step of the loop over the actions of a foreign key is careful. `ON` only starts an action with
`DELETE` or `UPDATE` after it, a token that is inside the source if `ON` is. -/
lemma nextReferentialAction_careful : Careful S nextReferentialAction fun _ => True := by
  have event : Careful S referentialEvent fun _ => True := by
    refine .skip (.eatKeyword _) fun isDelete => .ite (.of_pure trivial) ?_
    refine .skip (.expectKeyword _) fun _ => ?_
    exact .of_pure trivial
  have steady : Steady S atReferentialAction := fun _ _ _ near =>
    View.Nears.and_second (near.atKeyword _) View.Nears.inside_of_atKeyword fun inside =>
      congrArg Bool.not (near.second_isKeyword inside)
  refine .whenSeen steady fun cursor reached at_ => ?_
  refine .take reached (.of_isKeyword (Bool.and_eq_true_iff.mp at_).1) fun _ _ => ?_
  refine .skip event fun event => ?_
  exact .skip referentialAction_careful fun _ => .of_pure trivial

omit careful in
/-- Whether a foreign key may be deferred is careful. -/
lemma deferrable_careful : Careful S deferrable fun _ => True := by
  have deferred : Careful S (do
      if ← eatKeyword .DEFERRED then
        return true
      else
        let _ ← expectKeyword .IMMEDIATE
        return false) fun _ => True := by
    refine .skip (.eatKeyword _) fun isDeferred => .ite (.of_pure trivial) ?_
    refine .skip (.expectKeyword _) fun _ => ?_
    exact .of_pure trivial
  refine .skip (.eatKeyword _) fun _ => ?_
  refine .skip (.expectKeyword _) fun _ => ?_
  refine .skip (.afterKeyword deferred) fun initially => ?_
  exact .of_pure trivial

omit careful in
/-- A foreign key is careful. -/
lemma foreignKey_careful : Careful S (foreignKey rules) fun _ => True := by
  have atDeferrable : Steady S atDeferrable := .or (.atKeyword _) (.atKeywords _ _)
  refine .skip (.expectKeyword _) fun _ => ?_
  refine .skip .identifier fun table => ?_
  refine .skip optionalColumnNames_careful fun columns => ?_
  refine .skip (.many nextReferentialAction_careful _) fun actions => ?_
  refine .skip (.whenever atDeferrable deferrable_careful) fun deferrable => ?_
  exact .returns

/-! ## Constraints of columns -/

omit careful in
/-- Whether a generated column is stored is careful. -/
lemma generatedStorage_careful : Careful S generatedStorage fun _ => True := by
  unfold generatedStorage
  refine .skip (.eatKeyword _) fun isStored => .ite (.of_pure trivial) ?_
  refine .skip (.eatKeyword _) fun isVirtual => ?_
  exact .ite (.of_pure trivial) (.of_pure trivial)

/-- The expression of a generated column is careful. The required feature is complained about from
the start of the constraint on, where a token begins. -/
lemma generatedBy_careful {start : Span} (begins : S.origin.Begins start) (always : Bool) :
    Careful S (generatedBy rules start always) fun _ => True := by
  unfold generatedBy
  refine .skip (.require begins) fun _ => ?_
  refine .skip (.parenthesized (expr_careful careful)) fun expr => ?_
  exact .skip generatedStorage_careful fun _ => .of_pure trivial

omit careful in
/-- `PRIMARY KEY` is careful where a token can be taken. -/
lemma columnPrimaryKey_careful (reached : S.origin.Reaches cursor)
    (proper : cursor.current.IsProper) : CarefulOn S columnPrimaryKey (fun _ => True) cursor := by
  unfold columnPrimaryKey
  refine .take reached proper fun _ _ => ?_
  refine .skip (.expectKeyword _) fun _ => ?_
  refine .skip direction_careful fun direction => ?_
  refine .skip optionalOnConflict_careful fun onConflict => ?_
  refine .skip (.eatKeyword _) fun autoincrement => ?_
  exact .of_pure trivial

omit careful in
/-- `NOT NULL` is careful where a token can be taken. -/
lemma notNull_careful (reached : S.origin.Reaches cursor) (proper : cursor.current.IsProper) :
    CarefulOn S notNull (fun _ => True) cursor := by
  unfold notNull
  refine .take reached proper fun _ _ => ?_
  refine .skip (.expectKeyword _) fun _ => ?_
  exact .skip optionalOnConflict_careful fun _ => .of_pure trivial

omit careful in
/-- `JSON KEY` is careful where it is next: the drift extensions are required at its first word. -/
lemma jsonKey_careful (reached : S.origin.Reaches cursor)
    (at_ : cursor.view.atKeywords .JSON .KEY = true) :
    CarefulOn S jsonKey (fun _ => True) cursor := by
  unfold jsonKey
  refine .demand reached (.of_isKeyword (Bool.and_eq_true_iff.mp at_).1) ?_
  refine .keywords reached at_ ?_
  exact .skip .identifier fun _ => .of_pure trivial

omit careful in
/-- `AS` and a name in Dart are careful where a token can be taken. -/
lemma dartName_careful (reached : S.origin.Reaches cursor) (proper : cursor.current.IsProper) :
    CarefulOn S dartName (fun _ => True) cursor := by
  unfold dartName
  refine .demand reached proper ?_
  refine .take reached proper fun _ _ => ?_
  exact .skip .identifier fun _ => .of_pure trivial

/-- The kind of a constraint of a column is careful.

**Proof sketch.** It is decided by the keyword that is next, and for some by whether one keyword or
a parenthesis follows. At the end of input neither the source nor the longer one has a keyword
there. Elsewhere the next token is the same, and so is what is asked of the one after it. Then by
the keyword: each is taken after it was found, two of them after both were seen (`both`), and where
none applies nothing is taken. -/
lemma columnConstraintKind_careful {start : Span} (begins : S.origin.Begins start) :
    Careful S (columnConstraintKind rules start) fun _ => True := by
  refine .look (fun _ view longer near same => ?_) fun cursor reached => ?_
  · by_cases atEnd : view.current.kind = .endOfInput
    · have none (view : View) (stops : view.Stops) : view.current.keyword? = none := by
        obtain kind | kind | kind := stops <;> simp [Token.keyword?, kind]
      rw [none view (.inl atEnd), none longer (near.first.imp (·.trans atEnd) (·.2))]
    · simp only [same atEnd, near.second_isKeyword atEnd,
        near.second_isSymbol .leftParen (by simp) atEnd]
  · have both {first second : Keyword} (found : cursor.view.current.keyword? = some first)
        (at_ : cursor.view.second.isKeyword second = true) :
        cursor.view.atKeywords first second = true := by
      simp only [View.atKeywords, at_, Bool.and_true]
      simp [Token.isKeyword, found]
    split
    · next found =>
      exact (columnPrimaryKey_careful reached (.of_keyword? found)).bind reached fun _ _ =>
        .of_pure trivial
    · next found =>
      exact (notNull_careful reached (.of_keyword? found)).bind reached fun _ _ =>
        .of_pure trivial
    · next found => exact .take reached (.of_keyword? found) fun _ _ => .of_pure trivial
    · next found =>
      refine .take reached (.of_keyword? found) fun _ _ => ?_
      exact .skip optionalOnConflict_careful fun _ => .of_pure trivial
    · next found =>
      refine .take reached (.of_keyword? found) fun _ _ => ?_
      exact .skip (.parenthesized (expr_careful careful)) fun _ => .of_pure trivial
    · next found =>
      refine .take reached (.of_keyword? found) fun _ _ => ?_
      exact .skip (careful.operators _) fun _ => .of_pure trivial
    · next found =>
      refine .take reached (.of_keyword? found) fun _ _ => ?_
      exact .skip .identifier fun _ => .of_pure trivial
    · exact Careful.skip foreignKey_careful (fun _ => .of_pure trivial) reached
    · next found =>
      split
      · next second =>
        refine .keywords reached (both found second) ?_
        refine .skip (.expectKeyword _) fun _ => ?_
        exact .skip (generatedBy_careful careful begins true) fun _ => .of_pure trivial
      · exact Careful.of_pure trivial reached
    · next found =>
      refine .ite ?_ ?_
      · refine .take reached (.of_keyword? found) fun _ _ => ?_
        exact .skip (generatedBy_careful careful begins false) fun _ => .of_pure trivial
      · exact (dartName_careful reached (.of_keyword? found)).bind reached fun _ _ =>
          .of_pure trivial
    · next found =>
      split
      · next second =>
        exact (mappedBy_careful reached (both found second)).bind reached fun _ _ =>
          .of_pure trivial
      · exact Careful.of_pure trivial reached
    · next found =>
      split
      · next second =>
        exact (jsonKey_careful reached (both found second)).bind reached fun _ _ =>
          .of_pure trivial
      · exact Careful.of_pure trivial reached
    · exact Careful.of_pure trivial reached

omit careful in
/-- At the end of input and at a separator there is no constraint of a column. -/
lemma columnConstraintKind_idle (start : Span) : Idle (columnConstraintKind rules start) := by
  intro dialect cursor stops
  have none : cursor.view.current.keyword? = none := by
    obtain kind | kind | kind := stops <;> simp [Token.keyword?, kind]
  unfold columnConstraintKind
  rw [run_view_bind, none]
  rfl

/-- A step of the loop over the constraints of a column is careful. Where none follows, the start
that was looked up is not used. -/
lemma nextColumnConstraint_careful : Careful S (nextColumnConstraint rules) fun _ => True := by
  refine .hereIdle (fun start => .bind (.eatKeyword .of_none)
    (.bind (columnConstraintKind_idle start) .of_none)) fun start begins => ?_
  refine .skip constraintName_careful fun name => ?_
  refine .skip (columnConstraintKind_careful careful begins) fun kind => ?_
  cases kind with
  | some kind => exact .returns
  | none => exact .ite (.of_unexpected _) (.of_pure trivial)

/-- The definition of a column is careful. -/
lemma columnDefinition_careful : Careful S (columnDefinition rules) fun _ => True := by
  unfold columnDefinition
  refine .here (fun _ => .bind .identifier) fun start _ => ?_
  refine .skip .identifier fun name => ?_
  refine .skip (.whenever atTypeWord_steady (typeName_careful _)) fun type => ?_
  refine .skip (.many (nextColumnConstraint_careful careful) _) fun constraints => ?_
  exact .returns

/-! ## Constraints of tables -/

omit careful in
/-- The kind of a constraint of a table is not accepted at the end of input. -/
lemma tableConstraintKind_solid : Solid (tableConstraintKind rules) := by
  unfold tableConstraintKind
  refine .ifKeyword ?_
  refine .ifKeyword ?_
  refine .ifKeyword ?_
  refine .ifKeyword ?_
  exact .of_unexpected _

/-- The kind of a constraint of a table is careful. -/
lemma tableConstraintKind_careful : Careful S (tableConstraintKind rules) fun _ => True := by
  have columns : Careful S (parenthesized (indexedColumns rules)) fun _ => True :=
    .parenthesized (indexedColumns_careful careful)
  refine .skip (.eatKeyword _) fun _ => .ite ?_ ?_
  · refine .skip (.expectKeyword _) fun _ => ?_
    refine .skip columns fun columns => ?_
    exact .skip optionalOnConflict_careful fun _ => .of_pure trivial
  refine .skip (.eatKeyword _) fun _ => .ite ?_ ?_
  · refine .skip columns fun columns => ?_
    exact .skip optionalOnConflict_careful fun _ => .of_pure trivial
  refine .skip (.eatKeyword _) fun _ => .ite ?_ ?_
  · exact .skip (.parenthesized (expr_careful careful)) fun _ => .of_pure trivial
  refine .skip (.eatKeyword _) fun _ => .ite ?_ (.of_unexpected _)
  refine .skip (.expectKeyword _) fun _ => ?_
  refine .skip columnNames_careful fun columns => ?_
  exact .skip foreignKey_careful fun _ => .of_pure trivial

/-- A constraint of a table is careful. -/
lemma tableConstraint_careful : Careful S (tableConstraint rules) fun _ => True := by
  unfold tableConstraint
  refine .here (fun _ => .skip fun _ => .bind tableConstraintKind_solid) fun start _ => ?_
  refine .skip constraintName_careful fun name => ?_
  refine .skip (tableConstraintKind_careful careful) fun kind => ?_
  exact .returns

/-! ## Tables -/

omit careful in
/-- `IF NOT EXISTS` is careful. -/
lemma ifNotExists_careful : Careful S ifNotExists fun _ => True := by
  unfold ifNotExists
  refine .skip (.eatKeyword _) fun isIf => .ite ?_ (.of_pure trivial)
  refine .skip (.expectKeywords _) fun _ => ?_
  exact .of_pure trivial

omit careful in
/-- The name of a row class is careful where a token can be taken: the drift extensions are required
there. -/
lemma rowClass_careful (reached : S.origin.Reaches cursor) (proper : cursor.current.IsProper) :
    CarefulOn S rowClass (fun _ => True) cursor := by
  unfold rowClass
  refine .here (Cursor.ahead_of_proper (reached.ends S.ends) proper) ?_
  refine .require reached.begins ?_
  refine .take reached proper fun token _ => ?_
  refine .skip .identifier fun name => ?_
  exact .returns

/-- A column or a constraint of a table is careful. -/
lemma tableMember_careful (members : TableMembers) :
    Careful S (tableMember rules members) fun _ => True := by
  unfold tableMember
  refine .ifSees (.atAnyKeyword _)
    (fun _ reached _ => Careful.skip (tableConstraint_careful careful) (fun _ => .of_pure trivial)
    reached) ?_
  refine .ite ?_ (.of_unexpected _)
  exact .skip (columnDefinition_careful careful) fun _ => .of_pure trivial

/-- The columns and constraints of a table are careful: each further one is only asked for after a
comma. -/
lemma tableMembers_careful : Careful S (tableMembers rules) fun _ => True := by
  unfold tableMembers
  refine .skip (tableMember_careful careful _) fun first => ?_
  refine .iterate (fun members => ?_) _ first
  refine .skip (.eatSymbol (by simp)) fun isComma => .ite ?_ (.of_pure trivial)
  exact .skip (tableMember_careful careful members) fun _ => .of_pure trivial

omit careful in
/-- An option of a table is careful. `ROWID` is a name, which is the same in a longer source. -/
lemma tableOption_careful : Careful S tableOption fun _ => True := by
  have rowid : Steady S atRowid := by
    intro _ view longer near
    unfold atRowid
    obtain kind | ⟨kind, kind' | kind'⟩ := near.first
    · rw [kind]
    · rw [kind, kind']
    · rw [kind, kind']
  refine .skip (.eatKeyword _) fun _ => .ite ?_ ?_
  · refine .ifSees rowid (fun cursor reached at_ => ?_) (.of_unexpected _)
    have proper : cursor.current.IsProper := by
      unfold atRowid at at_
      split at at_
      · next kind => exact .of_kind kind rfl
      · exact absurd at_ Bool.false_ne_true
    exact .take reached proper fun _ _ => .of_pure trivial
  · refine .ifSees (.atKeyword _) (fun cursor reached at_ => ?_) (.of_unexpected _)
    refine .demand reached (.of_isKeyword at_) ?_
    refine .take reached (.of_isKeyword at_) fun _ _ => ?_
    exact .of_pure trivial

/-- The definition of a table is careful. -/
lemma tableDefinition_careful : Careful S (tableDefinition rules) fun _ => True := by
  have options : Careful S (tableOptions rules) fun _ => True :=
    .skip (.whenever (.atAnyKeyword _) (.commaSeparated tableOption_careful _)) fun _ =>
      .of_pure trivial
  refine .skip (.parenthesized (tableMembers_careful careful)) fun members => ?_
  refine .ite (.of_unexpected _) ?_
  refine .skip options fun options => ?_
  refine .skip (.whenSeen (.atAnyKeyword _) fun cursor reached at_ => ?_) fun _ => .of_pure trivial
  exact rowClass_careful reached (.of_atAnyKeyword at_)

/-- The creation of a table is careful. -/
lemma createTable_careful (start : Span) (temporary : Bool) :
    Careful S (createTable rules start temporary) fun _ => True := by
  unfold createTable
  refine .skip (.expectKeyword _) fun _ => ?_
  refine .skip ifNotExists_careful fun ifNotExists => ?_
  refine .skip qualifiedName_careful fun ⟨schema, name⟩ => ?_
  refine .skip (.eatKeyword _) fun isAs => .ite ?_ ?_
  · refine .skip careful.query fun rows => ?_
    exact .returns
  · refine .skip (tableDefinition_careful careful) fun definition => ?_
    exact .returns

omit careful in
/-- The creation of a virtual table is careful. -/
lemma createVirtualTable_careful (start : Span) :
    Careful S (createVirtualTable rules start) fun _ => True := by
  unfold createVirtualTable
  refine .skip (.expectKeywords _) fun _ => ?_
  refine .skip ifNotExists_careful fun ifNotExists => ?_
  refine .skip qualifiedName_careful fun ⟨schema, name⟩ => ?_
  refine .skip (.expectKeyword _) fun _ => ?_
  refine .skip .identifier fun module => ?_
  refine .skip (.whenever (.atSymbol (by simp)) (rawArguments_careful _)) fun arguments => ?_
  exact .returns

/-! ## Views, triggers and indexes -/

omit careful in
/-- Whether a row class of a view is next does not depend on what follows the source: the name and
the second `AS` are only looked at where the first one is inside. -/
lemma atViewRowClass_steady : Steady S atViewRowClass := by
  intro _ view longer near
  have named : (longer.atKeyword .AS && longer.second.kind.isIdentifierLike &&
      longer.third.isKeyword .AS) = (view.atKeyword .AS && view.second.kind.isIdentifierLike &&
      view.third.isKeyword .AS) := by
    rw [Bool.and_assoc, Bool.and_assoc]
    refine View.Nears.and_second (near.atKeyword _) View.Nears.inside_of_atKeyword fun inside => ?_
    rw [(near.second inside).isIdentifierLike]
    cases name : view.second.kind.isIdentifierLike with
    | false => rfl
    | true => rw [near.third_isKeyword inside (Token.IsProper.of_isIdentifierLike name).inside]
  exact congrArg₂ Bool.or (near.atKeyword _) named

omit careful in
/-- The keyword before the row class of a view can be taken. -/
lemma atViewRowClass_proper (at_ : atViewRowClass cursor.view = true) :
    cursor.current.IsProper := by
  simp only [atViewRowClass, Bool.or_eq_true, Bool.and_eq_true] at at_
  obtain at_ | ⟨⟨at_, -⟩, -⟩ := at_
  · exact .of_isKeyword at_
  · exact .of_isKeyword at_

/-- The creation of a view is careful. -/
lemma createView_careful (start : Span) (temporary : Bool) :
    Careful S (createView rules start temporary) fun _ => True := by
  unfold createView
  refine .skip (.expectKeyword _) fun _ => ?_
  refine .skip ifNotExists_careful fun ifNotExists => ?_
  refine .skip qualifiedName_careful fun ⟨schema, name⟩ => ?_
  refine .skip optionalColumnNames_careful fun columns => ?_
  refine .skip (.whenSeen atViewRowClass_steady fun _ reached at_ => rowClass_careful reached
    (atViewRowClass_proper at_)) fun rowClass => ?_
  refine .skip (.expectKeyword _) fun _ => ?_
  refine .skip careful.query fun query => ?_
  exact .returns

omit careful in
/-- When a trigger runs is careful. -/
lemma triggerTiming_careful : Careful S triggerTiming fun _ => True := by
  unfold triggerTiming
  refine .skip (.eatKeyword _) fun isBefore => .ite (.of_pure trivial) ?_
  refine .skip (.eatKeyword _) fun isAfter => .ite (.of_pure trivial) ?_
  refine .skip (.eatKeyword _) fun isInstead => .ite ?_ (.of_pure trivial)
  refine .skip (.expectKeyword _) fun _ => ?_
  exact .of_pure trivial

omit careful in
/-- The event of a trigger is careful. -/
lemma triggerEvent_careful : Careful S (triggerEvent rules) fun _ => True := by
  unfold triggerEvent
  refine .skip (.eatKeyword _) fun isDelete => .ite (.of_pure trivial) ?_
  refine .skip (.eatKeyword _) fun isInsert => .ite (.of_pure trivial) ?_
  refine .skip (.eatKeyword _) fun isUpdate => .ite ?_ (.of_unexpected _)
  exact .skip (.afterKeyword (.commaSeparated .identifier _)) fun _ => .of_pure trivial

omit careful in
/-- `FOR EACH ROW` is careful. -/
lemma forEachRow_careful : Careful S forEachRow fun _ => True := by
  unfold forEachRow
  refine .skip (.eatKeyword _) fun isFor => .ite ?_ (.of_pure trivial)
  refine .skip (.expectKeywords _) fun _ => ?_
  exact .of_pure trivial

/-- A statement of a trigger, with the semicolon after it, is careful. -/
lemma triggerStatement_careful : Careful S (triggerStatement rules) fun _ => True := by
  unfold triggerStatement
  refine .skip (dataStatement_careful careful _) fun statement => ?_
  refine .skip (.expectSymbol _) fun _ => ?_
  exact .of_pure trivial

/-- The body of a trigger is careful: statements up to `END`. -/
lemma triggerBody_careful : Careful S (triggerBody rules) fun _ => True := by
  have further : Careful S (do
      if ← eatKeyword .END then
        return none
      else
        return some (← triggerStatement rules)) fun _ => True := by
    refine .skip (.eatKeyword _) fun isEnd => .ite (.of_pure trivial) ?_
    exact .skip (triggerStatement_careful careful) fun _ => .of_pure trivial
  refine .skip (.expectKeyword _) fun _ => ?_
  refine .skip (triggerStatement_careful careful) fun first => ?_
  refine .skip (.many further _) fun rest => ?_
  exact .of_pure trivial

/-- The creation of a trigger is careful. -/
lemma createTrigger_careful (start : Span) (temporary : Bool) :
    Careful S (createTrigger rules start temporary) fun _ => True := by
  unfold createTrigger
  refine .skip (.expectKeyword _) fun _ => ?_
  refine .skip ifNotExists_careful fun ifNotExists => ?_
  refine .skip qualifiedName_careful fun ⟨schema, name⟩ => ?_
  refine .skip triggerTiming_careful fun timing => ?_
  refine .skip triggerEvent_careful fun event => ?_
  refine .skip (.expectKeyword _) fun _ => ?_
  refine .skip .identifier fun table => ?_
  refine .skip forEachRow_careful fun forEachRow => ?_
  refine .skip (.afterKeyword (expr_careful careful)) fun condition => ?_
  refine .skip (triggerBody_careful careful) fun body => ?_
  exact .returns

/-- The creation of an index is careful. -/
lemma createIndex_careful (start : Span) : Careful S (createIndex rules start) fun _ => True := by
  unfold createIndex
  refine .skip (.eatKeyword _) fun unique => ?_
  refine .skip (.expectKeyword _) fun _ => ?_
  refine .skip ifNotExists_careful fun ifNotExists => ?_
  refine .skip qualifiedName_careful fun ⟨schema, name⟩ => ?_
  refine .skip (.expectKeyword _) fun _ => ?_
  refine .skip .identifier fun table => ?_
  refine .skip (.parenthesized (indexedColumns_careful careful)) fun columns => ?_
  refine .skip (.afterKeyword (expr_careful careful)) fun filter => ?_
  exact .returns

/-! ## Statements -/

omit careful in
/-- What is created is not accepted at the end of input. -/
lemma created_solid (start place : Span) (temporary : Bool) :
    Solid (created rules start place temporary) :=
  .current fun token kind => by
    simp only [Token.keyword?, kind]
    exact .of_unexpected _

/-- What is created is careful. A misplaced `TEMP` is complained about at the place where it
stands. -/
lemma created_careful {start place : Span} (begins : S.origin.Begins place) (temporary : Bool) :
    Careful S (created rules start place temporary) fun _ => True := by
  refine .current (created_solid start place temporary) fun cursor reached => ?_
  split
  · exact Careful.skip (createTable_careful careful _ _) (fun _ => .of_pure trivial) reached
  · exact Careful.skip (createView_careful careful _ _) (fun _ => .of_pure trivial) reached
  · exact Careful.skip (createTrigger_careful careful _ _) (fun _ => .of_pure trivial) reached
  · exact .ite (Careful.of_invalid _ begins reached)
      (Careful.skip (createVirtualTable_careful _) (fun _ => .of_pure trivial) reached)
  iterate 2
    exact .ite (Careful.of_invalid _ begins reached)
      (Careful.skip (createIndex_careful careful _) (fun _ => .of_pure trivial) reached)
  · exact .of_unexpected _

/-- A creation is careful. -/
lemma creation_careful : Careful S (creation rules) fun _ => True := by
  rw [creation_eq]
  refine .skip (.expectKeyword _) fun start => ?_
  refine .here (fun place => ?_) fun place begins => ?_
  · refine .skip fun temp => .ite (created_solid start place true) ?_
    exact .skip fun temporary => created_solid start place temporary
  · refine .skip (.eatKeyword _) fun temp => .ite (created_careful careful begins _) ?_
    exact .skip (.eatKeyword _) fun temporary => created_careful careful begins _

/-- **Statements are careful.** -/
lemma statement_careful : Careful S (statement rules) fun _ => True := by
  unfold statement
  refine .ifSees (.atKeyword _) (fun _ reached _ => creation_careful careful reached) ?_
  exact .skip (dataStatement_careful careful _) fun _ => .of_pure trivial

end

end SqlTree.Grammar
