import SqlTree.Parse
import SqlTree.Proofs.Bounds.Rules
import SqlTree.Proofs.Entry

set_option autoImplicit false

/-!
# Bounds for whole sources

The parsers of statements and of whole sources do not depend on the bounds of the rules either, once
these are larger than the number of tokens ahead. So each entry point runs as it would without any
bound.

## Main results

* `SqlTree.Grammar.run_of_enough` — what an entry point does, with any bounds that suffice.
-/

namespace SqlTree.Grammar

open SqlTree.Parser

/-- What is created, after `CREATE` and `TEMP`. -/
def created (rules : Rules) (start place : Span) (temporary : Bool) : Parser Statement := do
  match (← current).keyword? with
  | some .TABLE => return .createTable (← createTable rules start temporary)
  | some .VIEW => return .createView (← createView rules start temporary)
  | some .TRIGGER => return .createTrigger (← createTrigger rules start temporary)
  | some .VIRTUAL =>
    if temporary then
      invalid "virtual tables cannot be temporary" place
    else
      return .createVirtualTable (← createVirtualTable rules start)
  | some .UNIQUE | some .INDEX =>
    if temporary then
      invalid "indexes cannot be temporary" place
    else
      return .createIndex (← createIndex rules start)
  | _ => unexpected "TABLE, VIRTUAL TABLE, VIEW, TRIGGER or INDEX"

variable {k : Nat} {rules rules' : Rules}

section

variable (settles : rules.Settles k rules')

include settles

/-! ## Statements that change rows -/

/-- Lists of indexed columns settle. -/
lemma indexedColumns_settles : Settles k (indexedColumns rules) (indexedColumns rules') :=
  .commaSeparated (.bind (expr_settles settles) fun _ => .refl _) settles.enough settles.enough'

/-- Lists of assignments settle. -/
lemma assignments_settles : Settles k (assignments rules) (assignments rules') := by
  have assignment : Settles k (assignment rules) (assignment rules') := by
    unfold assignment
    refine .skip fun start => .skip fun isLeftParen => .ite ?_ ?_
    · refine .bind (columnNames_settles settles) fun columns => ?_
      refine .skip fun _ => ?_
      refine .bind (expr_settles settles) fun value => ?_
      exact .refl _
    · refine .skip fun name => .skip fun columns => .skip fun _ => ?_
      refine .bind (expr_settles settles) fun value => ?_
      exact .refl _
  exact .commaSeparated assignment settles.enough settles.enough'

/-- `RETURNING` settles. -/
lemma optionalReturning_settles :
    Settles k (optionalReturning rules) (optionalReturning rules') := by
  have returning : Settles k (returning rules) (returning rules') := by
    unfold Grammar.returning
    refine .skip fun start => .skip fun _ => .skip fun _ => ?_
    refine .bind (resultColumns_settles settles) fun columns => ?_
    exact .refl _
  exact .whenever returning

/-- Sources of insertions settle. -/
lemma insertSource_settles : Settles k (insertSource rules) (insertSource rules') := by
  unfold insertSource
  refine .skip fun view => .ite ?_ (.ite ?_ (.ite (.refl _) ?_))
  · exact .bind (valuesClause_settles settles).weaken fun _ => .refl _
  · exact .bind settles.query fun _ => .refl _
  · split <;> exact .refl _

/-- Targets of `ON CONFLICT` settle. -/
lemma conflictTarget_settles : Settles k (conflictTarget rules) (conflictTarget rules') := by
  unfold conflictTarget
  refine .skip fun start => ?_
  refine .bind (.parenthesized (indexedColumns_settles settles)) fun columns => ?_
  refine .bind (.afterKeyword (expr_settles settles)) fun filter => ?_
  exact .refl _

/-- Actions of `ON CONFLICT` settle. -/
lemma upsertAction_settles : Settles k (upsertAction rules) (upsertAction rules') := by
  unfold upsertAction
  refine .skip fun _ => .skip fun isNothing => .ite (.refl _) ?_
  refine .skip fun _ => ?_
  refine .bind (assignments_settles settles) fun assignments => ?_
  refine .bind (.afterKeyword (expr_settles settles)) fun filter => ?_
  exact .refl _

/-- `ON CONFLICT` after an insertion settles. -/
lemma upsert_settles : Settles k (upsert rules) (upsert rules') := by
  unfold upsert
  refine .skip fun start => .skip fun _ => .skip fun _ => ?_
  refine .bind (.whenever (conflictTarget_settles settles)) fun target => ?_
  refine .bind (upsertAction_settles settles) fun action => ?_
  exact .refl _

omit settles in
/-- Where a keyword is next, the input has not ended. -/
lemma atKeyword_ne_end {view : View} {word : Keyword} (at_ : view.atKeyword word = true) :
    view.current.kind ≠ .endOfInput := by
  intro kind
  simp [View.atKeyword, Token.isKeyword, Token.keyword?, kind] at at_

omit settles in
/-- Where two keywords are next, the input has not ended. -/
lemma atKeywords_ne_end {view : View} {first second : Keyword}
    (at_ : view.atKeywords first second = true) : view.current.kind ≠ .endOfInput := by
  unfold View.atKeywords at at_
  exact @atKeyword_ne_end view first ((Bool.and_eq_true _ _).mp at_).1

omit settles in
/-- `ON CONFLICT` takes a token, its first keyword. -/
lemma upsert_progress :
    Progress (whenever (·.atKeywords .ON .CONFLICT) (upsert rules)) := by
  have steps : Steps (upsert rules) := by
    unfold upsert
    refine .skip fun start => .skip fun _ => ?_
    exact .bind (.bind (.expectKeyword _))
  exact .whenKeyword steps fun _ => atKeywords_ne_end

/-- Insertions settle: `ON CONFLICT` may be repeated, and makes progress. -/
lemma insert_settles (commonTables : Option WithClause) (start : Span) :
    Settles k (insert rules commonTables start) (insert rules' commonTables start) := by
  unfold insert
  refine .skip fun mode => .skip fun _ => .skip fun names => .skip fun aliasName => ?_
  refine .bind (optionalColumnNames_settles settles) fun columns => ?_
  refine .bind (insertSource_settles settles) fun source => ?_
  refine .bind (.many (.whenever (upsert_settles settles)) upsert_progress settles.enough
    settles.enough') fun _ => ?_
  exact .bind (optionalReturning_settles settles) fun _ => .refl _

/-- Updates settle. -/
lemma update_settles (commonTables : Option WithClause) (start : Span) :
    Settles k (update rules commonTables start) (update rules' commonTables start) := by
  unfold update
  refine .skip fun _ => .skip fun onConflict => .skip fun names => .skip fun aliasName => ?_
  refine .skip fun _ => ?_
  refine .bind (assignments_settles settles) fun assignments => ?_
  refine .bind (.afterKeyword settles.tableRef) fun source => ?_
  refine .bind (.afterKeyword (expr_settles settles)) fun _ => ?_
  exact .bind (optionalReturning_settles settles) fun _ => .refl _

/-- Deletions settle. -/
lemma delete_settles (commonTables : Option WithClause) (start : Span) :
    Settles k (delete rules commonTables start) (delete rules' commonTables start) := by
  unfold delete
  refine .skip fun _ => .skip fun names => .skip fun aliasName => ?_
  refine .bind (.afterKeyword (expr_settles settles)) fun filter => ?_
  refine .bind (optionalReturning_settles settles) fun returning => ?_
  exact .refl _

/-- Statements about data settle after their common tables. -/
lemma dataStatementAfter_settles (commonTables : Option WithClause) (start : Span)
    (expected : String) :
    Settles k (dataStatementAfter rules commonTables start expected)
      (dataStatementAfter rules' commonTables start expected) := by
  unfold dataStatementAfter
  refine .skip fun view => .ite ?_ (.ite ?_ (.ite ?_ (.ite ?_ (.refl _))))
  · exact .bind (queryAfter_settles settles _ _).weaken fun _ => .refl _
  · exact .bind (insert_settles settles _ _) fun _ => .refl _
  · exact .bind (update_settles settles _ _) fun _ => .refl _
  · exact .bind (delete_settles settles _ _) fun _ => .refl _

/-- A statement about data takes a token, the keyword it starts with. For an insertion this is
`REPLACE` if it is there, and `INSERT` otherwise. -/
lemma dataStatementAfter_steps (commonTables : Option WithClause) (start : Span)
    (expected : String) : Steps (dataStatementAfter rules commonTables start expected) := by
  have mode : Steps insertMode := by
    unfold insertMode
    intro dialect cursor value stop run
    rw [run_eatKeyword_bind] at run
    split at run
    · obtain ⟨-, rfl⟩ := accepted_pure run
      simp
    · have steps : Steps (do
          let _ ← expectKeyword .INSERT
          if ← eatKeyword .OR then
            return InsertMode.insertOr (← conflict)
          else
            return InsertMode.insert) := .bind (.expectKeyword _)
      exact steps run
  unfold dataStatementAfter
  refine .skip fun view => .ite ?_ (.ite ?_ (.ite ?_ (.ite ?_ (.of_unexpected _))))
  · exact .bind (queryAfter_settles settles _ _).steps
  · exact .bind (.bind mode)
  · exact .bind (.bind (.expectKeyword _))
  · exact .bind (.bind (.bind (.expectKeyword _)))

/-- Statements about data settle. -/
lemma dataStatement_settles (expected : String) :
    Settles k (dataStatement rules expected) (dataStatement rules' expected) := by
  unfold dataStatement
  refine .skip fun start => .skip fun isWith => .ite ?_ (dataStatementAfter_settles settles _ _ _)
  exact .bind (withClause_settles settles).weaken fun _ => dataStatementAfter_settles settles _ _ _

/-- A statement about data takes a token, be it that of `WITH`. -/
lemma dataStatement_steps (expected : String) : Steps (dataStatement rules expected) := by
  unfold dataStatement
  refine .skip fun start => .skip fun isWith => .ite ?_ (dataStatementAfter_steps settles _ _ _)
  exact .bind (withClause_settles settles).steps

/-! ## Constraints -/

omit settles in
/-- An action of a foreign key takes a token, the keyword `ON`. -/
lemma referentialAction_progress : Progress nextReferentialAction := by
  refine .whenKeyword (.bind .advance) fun view at_ => ?_
  unfold atReferentialAction at at_
  exact @atKeyword_ne_end view .ON ((Bool.and_eq_true _ _).mp at_).1

/-- Foreign keys settle. -/
lemma foreignKey_settles : Settles k (foreignKey rules) (foreignKey rules') := by
  unfold foreignKey
  refine .skip fun start => .skip fun table => ?_
  refine .bind (optionalColumnNames_settles settles) fun columns => ?_
  refine .bind (.many (.refl _) referentialAction_progress settles.enough settles.enough')
    fun actions => ?_
  exact .refl _

/-- Expressions of generated columns settle. -/
lemma generatedBy_settles (start : Span) (always : Bool) :
    Settles k (generatedBy rules start always) (generatedBy rules' start always) := by
  unfold generatedBy
  refine .skip fun _ => ?_
  refine .bind (.parenthesized (expr_settles settles)) fun expr => ?_
  exact .refl _

/-- Constraints of columns settle, whichever keyword they start with. -/
lemma columnConstraintKind_settles (start : Span) :
    Settles k (columnConstraintKind rules start) (columnConstraintKind rules' start) := by
  unfold columnConstraintKind
  refine .skip fun view => ?_
  split
  · exact .refl _
  · exact .refl _
  · exact .refl _
  · exact .refl _
  · refine .skip fun _ => ?_
    exact .bind (.parenthesized (expr_settles settles)) fun _ => .refl _
  · refine .skip fun _ => ?_
    exact .bind (settles.operators _) fun _ => .refl _
  · exact .refl _
  · exact .bind (foreignKey_settles settles) fun _ => .refl _
  · refine .ite ?_ (.refl _)
    refine .skip fun _ => .skip fun _ => .skip fun _ => ?_
    exact .bind (generatedBy_settles settles _ _) fun _ => .refl _
  · refine .ite ?_ (.refl _)
    refine .skip fun _ => ?_
    exact .bind (generatedBy_settles settles _ _) fun _ => .refl _
  · exact .refl _
  · exact .refl _
  · exact .refl _

omit settles in
/-- A constraint of a column takes a token, where one is there.

**Proof sketch.** Where a keyword is next the input has not ended, so it suffices that the parser of
each case steps (`goes`). The cases are those of the keyword that is next: in most of them it is
taken first, in those of a required feature after the feature, and where none applies nothing is
accepted. -/
lemma columnConstraintKind_progress (start : Span) :
    Progress (columnConstraintKind rules start) := by
  intro dialect cursor value stop ends run
  unfold columnConstraintKind at run
  rw [run_view_bind] at run
  have goes : ∀ {parser : Parser (Option ColumnConstraintKind)}, Steps parser →
      cursor.view.current.keyword? ≠ none →
      parser.run dialect cursor = .accepted (some value) stop →
      stop.ahead.length < cursor.ahead.length := by
    intro parser steps word run
    have := steps run
    have := @ahead_of_ends cursor ends (by
      intro kind
      apply word
      unfold Token.keyword?
      rw [show cursor.view.current.kind = .endOfInput from kind])
    omega
  split at run
  iterate 2 exact goes (.bind (.bind .advance)) (by simp_all) run
  iterate 5 exact goes (.bind .advance) (by simp_all) run
  · exact goes (.bind (.bind (.expectKeyword _))) (by simp_all) run
  · split at run
    · exact goes (.bind .advance) (by simp_all) run
    · exact absurd (accepted_pure run).1 (by simp)
  · split at run
    · exact goes (.bind .advance) (by simp_all) run
    · exact goes (.bind (.skip fun _ => .skip fun _ => .bind .advance)) (by simp_all) run
  · split at run
    · exact goes (.bind (.skip fun _ => .skip fun _ => .bind .advance)) (by simp_all) run
    · exact absurd (accepted_pure run).1 (by simp)
  · split at run
    · exact goes (.bind (.skip fun _ => .skip fun _ => .bind .advance)) (by simp_all) run
    · exact absurd (accepted_pure run).1 (by simp)
  · exact absurd (accepted_pure run).1 (by simp)

/-- A turn of the loop over the constraints of a column settles. -/
lemma nextColumnConstraint_settles :
    Settles k (nextColumnConstraint rules) (nextColumnConstraint rules') := by
  unfold nextColumnConstraint
  refine .skip fun start => .skip fun name => ?_
  refine .bind (columnConstraintKind_settles settles _) fun kind => ?_
  split <;> exact .refl _

omit settles in
/-- A turn of the loop over the constraints of a column takes a token: after a name the constraint
must be there. -/
lemma nextColumnConstraint_progress : Progress (nextColumnConstraint rules) := by
  intro dialect cursor value stop ends run
  unfold nextColumnConstraint at run
  rw [run_here_bind] at run
  obtain ⟨name, middle, first, -, run⟩ := accepted_bind run
  obtain ⟨kind, middle', second, le, run⟩ := accepted_bind run
  have := accepted_length first
  cases kind with
  | none =>
    dsimp only at run
    split at run
    · exact absurd run not_accepted_unexpected
    · exact absurd (accepted_pure run).1 (by simp)
  | some kind =>
    have := columnConstraintKind_progress _ (ends_of_accepted first ends) second
    omega

/-- Definitions of columns settle. -/
lemma columnDefinition_settles : Settles k (columnDefinition rules) (columnDefinition rules') := by
  unfold columnDefinition
  refine .skip fun start => .skip fun name => ?_
  refine .bind (.whenever (typeName_settles settles.enough settles.enough')) fun type => ?_
  refine .bind (.many (nextColumnConstraint_settles settles) nextColumnConstraint_progress
    settles.enough settles.enough') fun constraints => ?_
  exact .refl _

/-- Constraints of tables settle. -/
lemma tableConstraint_settles : Settles k (tableConstraint rules) (tableConstraint rules') := by
  have columns : Settles k (parenthesized (indexedColumns rules))
      (parenthesized (indexedColumns rules')) := .parenthesized (indexedColumns_settles settles)
  have kind : Settles k (tableConstraintKind rules) (tableConstraintKind rules') := by
    unfold tableConstraintKind
    refine .skip fun _ => .ite (.skip fun _ => .bind columns fun _ => .refl _) ?_
    refine .skip fun _ => .ite (.bind columns fun _ => .refl _) (.skip fun _ => .ite ?_ ?_)
    · exact .bind (.parenthesized (expr_settles settles)) fun _ => .refl _
    · refine .skip fun _ => .ite (.skip fun _ => ?_) (.refl _)
      refine .bind (columnNames_settles settles) fun columns => ?_
      exact .bind (foreignKey_settles settles) fun _ => .refl _
  refine .skip fun _ => .skip fun name => ?_
  refine .bind kind fun kind => ?_
  exact .refl _

/-! ## Statements that create things -/

/-- Columns and constraints of a table settle. -/
lemma tableMember_settles (members : TableMembers) :
    Settles k (tableMember rules members) (tableMember rules' members) := by
  unfold tableMember
  refine .skip fun _ => .ite ?_ (.ite ?_ (.refl _))
  · exact .bind (tableConstraint_settles settles) fun _ => .refl _
  · exact .bind (columnDefinition_settles settles) fun _ => .refl _

/-- The list of columns and constraints of a table settles: a further one comes after a comma. -/
lemma tableMembers_settles : Settles k (tableMembers rules) (tableMembers rules') := by
  unfold tableMembers
  refine .bind (tableMember_settles settles _) fun first => ?_
  refine .iterate (fun members => ?_) (fun members => .afterSymbol (tableMember rules members))
    settles.enough settles.enough' first
  refine .skip fun isComma => .ite ?_ (.refl _)
  exact .bind (tableMember_settles settles members) fun _ => .refl _

/-- Definitions of tables settle. -/
lemma tableDefinition_settles : Settles k (tableDefinition rules) (tableDefinition rules') := by
  have options : Settles k (tableOptions rules) (tableOptions rules') :=
    .bind (.whenever (.commaSeparated (.refl _) settles.enough settles.enough')) fun _ => .refl _
  unfold tableDefinition
  refine .bind (.parenthesized (tableMembers_settles settles)) fun members => .ite (.refl _) ?_
  exact .bind options fun _ => .refl _

/-- Creations of tables settle. -/
lemma createTable_settles (start : Span) (temporary : Bool) :
    Settles k (createTable rules start temporary) (createTable rules' start temporary) := by
  unfold createTable
  refine .skip fun _ => .skip fun ifNotExists => .skip fun names => .skip fun isAs => .ite ?_ ?_
  · exact .bind settles.query fun _ => .refl _
  · exact .bind (tableDefinition_settles settles) fun _ => .refl _

/-- Creations of virtual tables settle. -/
lemma createVirtualTable_settles (start : Span) :
    Settles k (createVirtualTable rules start) (createVirtualTable rules' start) := by
  unfold createVirtualTable
  refine .skip fun _ => .skip fun ifNotExists => .skip fun names => .skip fun _ => ?_
  refine .skip fun module => ?_
  refine .bind (.whenever (rawArguments_settles settles.enough settles.enough')) fun arguments => ?_
  exact .refl _

/-- Creations of views settle. -/
lemma createView_settles (start : Span) (temporary : Bool) :
    Settles k (createView rules start temporary) (createView rules' start temporary) := by
  unfold createView
  refine .skip fun _ => .skip fun ifNotExists => .skip fun names => ?_
  refine .bind (optionalColumnNames_settles settles) fun columns => ?_
  refine .skip fun rowClass => .skip fun _ => ?_
  refine .bind settles.query fun query => ?_
  exact .refl _

/-- Events of triggers settle. -/
lemma triggerEvent_settles : Settles k (triggerEvent rules) (triggerEvent rules') := by
  unfold triggerEvent
  refine .skip fun _ => .ite (.refl _) (.skip fun _ => .ite (.refl _) (.skip fun _ => .ite ?_ ?_))
  · exact .bind (.afterKeyword (identifiers_settles settles)) fun _ => .refl _
  · exact .refl _

/-- Statements of triggers settle. -/
lemma triggerStatement_settles : Settles k (triggerStatement rules) (triggerStatement rules') :=
  .bind (dataStatement_settles settles _) fun _ => .refl _

omit settles in
/-- The semicolon after a statement of a trigger is a token. -/
lemma triggerStatement_progress : Progress do
    if ← eatKeyword .END then return none else return some (← triggerStatement rules) := by
  intro dialect cursor value stop ends run
  rw [run_eatKeyword_bind] at run
  split at run
  · exact absurd (accepted_pure run).1 (by simp)
  · obtain ⟨statement, middle, inner, -, last⟩ := accepted_bind run
    obtain ⟨-, rfl⟩ := accepted_pure last
    obtain ⟨data, middle', first, -, inner⟩ := accepted_bind inner
    obtain ⟨at_, -, inner⟩ := accepted_expectSymbol inner
    obtain ⟨-, rfl⟩ := accepted_pure inner
    have := accepted_length first
    have := @ahead_of_ends middle' (ends_of_accepted first ends)
      fun kind => Cursor.not_atSymbol_end kind _ at_
    simp only [Cursor.advance_ahead, List.length_tail]
    omega

/-- Bodies of triggers settle. -/
lemma triggerBody_settles : Settles k (triggerBody rules) (triggerBody rules') := by
  unfold triggerBody
  refine .skip fun _ => ?_
  refine .bind (triggerStatement_settles settles) fun first => ?_
  refine .bind (.many ?_ triggerStatement_progress settles.enough settles.enough')
    fun rest => .refl _
  refine .skip fun isEnd => .ite (.refl _) ?_
  exact .bind (triggerStatement_settles settles) fun next => .refl _

/-- Creations of triggers settle. -/
lemma createTrigger_settles (start : Span) (temporary : Bool) :
    Settles k (createTrigger rules start temporary) (createTrigger rules' start temporary) := by
  unfold createTrigger
  refine .skip fun _ => .skip fun ifNotExists => .skip fun names => .skip fun timing => ?_
  refine .bind (triggerEvent_settles settles) fun event => ?_
  refine .skip fun _ => .skip fun table => .skip fun forEachRow => ?_
  refine .bind (.afterKeyword (expr_settles settles)) fun _ => ?_
  exact .bind (triggerBody_settles settles) fun _ => .refl _

/-- Creations of indexes settle. -/
lemma createIndex_settles (start : Span) :
    Settles k (createIndex rules start) (createIndex rules' start) := by
  unfold createIndex
  refine .skip fun unique => .skip fun _ => .skip fun ifNotExists => .skip fun names => ?_
  refine .skip fun _ => .skip fun table => ?_
  refine .bind (.parenthesized (indexedColumns_settles settles)) fun _ => ?_
  exact .bind (.afterKeyword (expr_settles settles)) fun _ => .refl _

omit settles in
/-- A creation reads whether the thing is temporary, and then what it is. -/
lemma creation_eq (rules : Rules) :
    creation rules = (do
      let start ← expectKeyword .CREATE
      let place ← here
      if ← eatKeyword .TEMP then
        created rules start place true
      else
        let temporary ← eatKeyword .TEMPORARY
        created rules start place temporary) := rfl

/-- Whatever is created settles. -/
lemma created_settles (start place : Span) (temporary : Bool) :
    Settles k (created rules start place temporary) (created rules' start place temporary) := by
  unfold created
  refine .skip fun token => ?_
  split
  · exact .bind (createTable_settles settles _ _) fun _ => .refl _
  · exact .bind (createView_settles settles _ _) fun _ => .refl _
  · exact .bind (createTrigger_settles settles _ _) fun _ => .refl _
  · refine .ite (.refl _) ?_
    exact .bind (createVirtualTable_settles settles _) fun _ => .refl _
  · refine .ite (.refl _) ?_
    exact .bind (createIndex_settles settles _) fun _ => .refl _
  · refine .ite (.refl _) ?_
    exact .bind (createIndex_settles settles _) fun _ => .refl _
  · exact .refl _

/-- Creations settle. -/
lemma creation_settles : Settles k (creation rules) (creation rules') := by
  rw [creation_eq, creation_eq]
  refine .skip fun start => .skip fun place => .skip fun isTemp => ?_
  refine .ite (created_settles settles _ _ _) ?_
  refine .skip fun temporary => ?_
  exact created_settles settles _ _ _

/-- **Statements settle.** -/
lemma statement_settles : Settles k (statement rules) (statement rules') := by
  unfold statement
  refine .skip fun isCreate => .ite (creation_settles settles) ?_
  exact .bind (dataStatement_settles settles _) fun _ => .refl _

/-- A statement takes a token. -/
lemma statement_steps : Steps (statement rules) :=
  .skip fun _ => .ite (.bind (.expectKeyword _)) (.bind (dataStatement_steps settles _))

/-! ## Whole sources -/

/-- Sources that are statements settle. -/
lemma wholeStatement_settles : Settles k (wholeStatement rules) (wholeStatement rules') :=
  .bind (statement_settles settles) fun _ => .refl _

/-- Sources that are expressions settle. -/
lemma wholeExpression_settles : Settles k (wholeExpression rules) (wholeExpression rules') :=
  .bind (expr_settles settles) fun _ => .refl _

omit settles in
/-- A semicolon is a token. -/
lemma semicolon_progress : Progress (whenever (·.atSymbol .semicolon) advance) :=
  .whenKeyword .advance fun view at_ kind => by
    simp [View.atSymbol, Token.isSymbol, kind] at at_

omit settles in
/-- An entry of a source takes a token. -/
lemma nextEntry_progress {α : Type} {entry : Parser α} (steps : Steps entry) :
    Progress (nextEntry rules entry) := by
  intro dialect cursor value stop ends run
  obtain ⟨skipped, middle, first, -, run⟩ := accepted_bind run
  rw [run_sees_bind] at run
  split at run
  · exact absurd (accepted_pure run).1 (by simp)
  · next more =>
    obtain ⟨part, middle', second, le, -⟩ := accepted_bind run
    have := accepted_length first
    have := steps second
    have := @ahead_of_ends middle (ends_of_accepted first ends) fun kind => more (by
      change middle.current.isEnd = true
      unfold Token.isEnd
      rw [kind])
    omega

/-- Entries ended by semicolons settle if one entry does and takes a token. -/
lemma entries_settles {α : Type} {entry entry' : Parser α} (same : Settles k entry entry')
    (steps : Steps entry) : Settles k (entries rules entry) (entries rules' entry') := by
  refine .many ?_ (nextEntry_progress steps) settles.enough settles.enough'
  refine .bind (.many (.refl _) semicolon_progress settles.enough settles.enough') fun _ => ?_
  refine .skip fun isEnd => .ite (.refl _) ?_
  refine .bind same fun value => ?_
  exact .refl _

/-- Scripts settle. -/
lemma script_settles : Settles k (script rules) (script rules') :=
  entries_settles settles (statement_settles settles) (statement_steps settles)

/-! ## Drift files -/

/-- Hints about variables settle. -/
lemma statementParameters_settles :
    Settles k (statementParameters rules) (statementParameters rules') := by
  have type : Settles k (variableType rules) (variableType rules') := by
    refine .skip fun isAs => .ite ?_ (.refl _)
    refine .bind (typeName_settles settles.enough settles.enough') fun type => ?_
    exact .refl _
  have variable_ : Settles k (typedVariable rules) (typedVariable rules') := by
    unfold typedVariable
    refine .skip fun start => .skip fun required => .skip fun token => ?_
    split
    · refine .skip fun _ => ?_
      refine .bind type fun parts => ?_
      exact .refl _
    · exact .refl _
  have parameter : Settles k (statementParameter rules) (statementParameter rules') := by
    unfold statementParameter
    refine .skip fun view => ?_
    split
    · refine .skip fun start => .skip fun _ => .skip fun _ => ?_
      refine .bind (expr_settles settles) fun value => ?_
      exact .refl _
    · exact variable_
  exact .bind (.whenever (.parenthesized (.skip fun _ => .ite (.refl _)
    (.commaSeparated parameter settles.enough settles.enough')))) fun _ => .refl _

/-- Named statements settle. -/
lemma declaredStatement_settles :
    Settles k (declaredStatement rules) (declaredStatement rules') := by
  unfold declaredStatement
  refine .skip fun start => .skip fun name => ?_
  refine .bind (statementParameters_settles settles) fun parameters => ?_
  refine .skip fun resultClass => .skip fun _ => ?_
  refine .bind (statement_settles settles) fun statement => ?_
  exact .refl _

/-- Entries of drift files settle. -/
lemma driftEntry_settles : Settles k (driftEntry rules) (driftEntry rules') := by
  unfold driftEntry
  refine .skip fun view => ?_
  dsimp only
  split
  · exact .refl _
  · refine .ite (.skip fun _ => .skip fun _ =>
      .bind (statement_settles settles) fun _ => .refl _) ?_
    refine .ite ?_ ?_
    · exact .bind (declaredStatement_settles settles) fun _ => .refl _
    · exact .bind (statement_settles settles) fun _ => .refl _

/-- An entry of a drift file takes a token. -/
lemma driftEntry_steps : Steps (driftEntry rules) := by
  unfold driftEntry
  refine .skip fun view => ?_
  dsimp only
  split
  · exact .bind .advance
  · refine .ite (.bind .advance) (.ite ?_ (.bind (statement_steps settles)))
    exact .bind (.skip fun _ => .bind .identifier)

/-- Drift files settle. -/
lemma driftFile_settles : Settles k (driftFile rules) (driftFile rules') := by
  unfold driftFile
  refine .skip fun start => .skip fun _ => ?_
  refine .bind (entries_settles settles (driftEntry_settles settles) (driftEntry_steps settles))
    fun list => ?_
  exact .refl _

end

/-! ## Entry points -/

/-- **Each way of reading a source settles** over rules that settle. -/
lemma parser_settles (settles : rules.Settles k rules') (entry : Entry) :
    Settles k (entry.parser rules) (entry.parser rules') :=
  match entry with
  | .statement => wholeStatement_settles settles
  | .expression => wholeExpression_settles settles
  | .script => script_settles settles
  | .driftFile => driftFile_settles settles

/-- **An entry point does the same with any bounds** that are larger than the number of tokens
ahead. -/
theorem run_of_enough (entry : Entry) {dialect : Dialect} {cursor : Cursor} (ends : cursor.Ends)
    {limit depth : Nat} (enough : cursor.ahead.length < limit)
    (deep : cursor.ahead.length < depth) :
    (entry.parser (Grammar.rules limit depth)).run dialect cursor =
      bounded dialect entry.parser cursor :=
  (parser_settles (rules_settles (Nat.succ_pos cursor.ahead.length) enough (Nat.le_refl _) deep
    (Nat.le_refl _)) entry).alike ends (Nat.lt_succ_self _)

end SqlTree.Grammar
