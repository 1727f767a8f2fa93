import SqlTree.Proofs.Gates.Query

set_option autoImplicit false

/-!
# The gates of statements

## Main results

* `SqlTree.Grammar.statement_gated` — statements over gated rules use only features of the dialect.
* `SqlTree.Grammar.script_gated`, `SqlTree.Grammar.driftFile_gated` — so do scripts and drift files.
-/

namespace SqlTree.Grammar

open SqlTree.Parser

variable {dialect : Dialect} {rules : Rules}

section

variable (gated : rules.Gated dialect)

include gated

/-! ## Statements that change rows -/

/-- An indexed column reads no feature that the dialect lacks. -/
lemma indexedColumn_gated :
    Ensures dialect (indexedColumn rules) fun column => dialect.Reads column.features := by
  unfold indexedColumn
  refine .bind (expr_gated gated) fun expr reads => ?_
  refine .skip fun direction => .skip fun span => ?_
  exact .of_pure reads

/-- Lists of indexed columns read no feature that the dialect lacks. -/
lemma indexedColumns_gated :
    Ensures dialect (indexedColumns rules)
      fun columns => ∀ column ∈ columns, dialect.Reads column.features :=
  .commaSeparated (indexedColumn_gated gated) _

/-- An assignment reads no feature that the dialect lacks. -/
lemma assignment_gated :
    Ensures dialect (assignment rules) fun assignment => dialect.Reads assignment.features := by
  have whole (start : Span) (columns : List String) : Ensures dialect
      (do
        let _ ← expectSymbol .eq
        let value ← rules.expr
        return ⟨columns, value, ← spanFrom start⟩)
      fun assignment : Assignment => dialect.Reads assignment.features := by
    refine .skip fun _ => ?_
    refine .bind (expr_gated gated) fun value reads => ?_
    exact .skip fun span => .of_pure reads
  unfold assignment
  refine .skip fun start => .skip fun several => .ite (fun _ => ?_) fun _ => ?_
  · exact .skip fun columns => whole start columns
  · exact .skip fun column => whole start [column]

/-- Lists of assignments read no feature that the dialect lacks. -/
lemma assignments_gated :
    Ensures dialect (assignments rules)
      fun list => ∀ assignment ∈ list, dialect.Reads assignment.features :=
  .commaSeparated (assignment_gated gated) _

/-- `RETURNING` is read after the demand for its feature. -/
lemma returning_gated :
    Ensures dialect (returning rules) fun returning => dialect.Reads returning.features := by
  unfold returning
  refine .skip fun start => ?_
  refine .require fun has => ?_
  refine .skip fun _ => ?_
  refine .bind (resultColumns_gated gated) fun columns reads => ?_
  refine .skip fun span => .of_pure ?_
  simpa [Returning.features] using ⟨has, reads⟩

/-- `RETURNING` that may be left out is read after the demand for its feature. -/
lemma optionalReturning_gated :
    Ensures dialect (optionalReturning rules)
      fun returning => ∀ clause ∈ returning, dialect.Reads clause.features :=
  .whenever (returning_gated gated)

/-- A placeholder in place of the rows is only read with the drift extensions. -/
lemma insertSource_gated :
    Ensures dialect (insertSource rules) fun source => dialect.Reads source.features := by
  unfold insertSource
  refine .skip fun view => .ite (fun _ => ?_) fun _ => .ite (fun _ => ?_) fun _ =>
    .ite (fun _ => ?_) fun _ => ?_
  · exact .bind (valuesClause_gated gated) fun clause reads => .of_pure reads
  · exact .bind gated.query fun rows reads => .of_pure reads
  · refine .skip fun _ => .skip fun _ => .skip fun span => ?_
    exact .of_pure (by simp [InsertSource.features])
  · split
    · refine .isDrift (.ite (fun drift => .skip fun _ => .of_pure ?_) fun _ => .of_unexpected _)
      simpa [InsertSource.features] using drift
    · exact .of_unexpected _

/-- The target of `ON CONFLICT` reads no feature that the dialect lacks. -/
lemma conflictTarget_gated :
    Ensures dialect (conflictTarget rules) fun target => dialect.Reads target.features := by
  unfold conflictTarget
  refine .skip fun start => .bind (.parenthesized (indexedColumns_gated gated)) ?_
  intro columns first
  refine .bind (.afterKeyword (expr_gated gated)) fun filter second => ?_
  refine .skip fun span => ?_
  exact .of_pure (by simpa [ConflictTarget.features] using ⟨first, second⟩)

/-- Its action reads no feature that the dialect lacks. -/
lemma upsertAction_gated :
    Ensures dialect (upsertAction rules) fun action => dialect.Reads action.features := by
  unfold upsertAction
  refine .skip fun _ => .skip fun nothing => .ite (fun _ => ?_) fun _ => .skip fun _ => ?_
  · exact .of_pure (by simp [UpsertAction.features])
  · refine .bind (assignments_gated gated) fun assignments first => ?_
    refine .bind (.afterKeyword (expr_gated gated)) fun filter second => .of_pure ?_
    simpa [UpsertAction.features] using ⟨first, second⟩

/-- `ON CONFLICT` after an insertion is read after the demand for its feature. -/
lemma upsert_gated :
    Ensures dialect (upsert rules) fun upsert => dialect.Reads upsert.features := by
  unfold upsert
  refine .skip fun start => ?_
  refine .require fun has => ?_
  refine .skip fun _ => ?_
  refine .bind (.whenever (conflictTarget_gated gated)) fun target first => ?_
  refine .bind (upsertAction_gated gated) fun action second => ?_
  refine .skip fun span => .of_pure ?_
  simpa [Upsert.features] using ⟨has, first, second⟩

section

variable {commonTables : Option WithClause} (start : Span)
  (tables : ∀ clause ∈ commonTables, dialect.Reads clause.features)

include tables

/-- An insertion reads no feature that the dialect lacks, if its common tables do not. -/
lemma insert_gated :
    Ensures dialect (insert rules commonTables start)
      fun insert => dialect.Reads insert.features := by
  unfold insert
  refine .skip fun mode => .skip fun _ => .skip fun name => .skip fun aliasName => ?_
  refine .skip fun columns => ?_
  refine .bind (insertSource_gated gated) fun source first => ?_
  refine .bind (.many (.whenever (upsert_gated gated)) _) fun upserts second => ?_
  refine .bind (optionalReturning_gated gated) fun returning third => ?_
  refine .skip fun span => ?_
  exact .of_pure (by simpa [Insert.features] using ⟨tables, first, second, third⟩)

/-- An update reads no feature that the dialect lacks, if its common tables do not. -/
lemma update_gated :
    Ensures dialect (update rules commonTables start)
      fun update => dialect.Reads update.features := by
  unfold update
  refine .skip fun _ => .skip fun conflict => .skip fun name => .skip fun aliasName => ?_
  refine .skip fun _ => ?_
  refine .bind (assignments_gated gated) fun assignments first => ?_
  refine .bind (.afterKeyword gated.tableRef) fun source second => ?_
  refine .bind (.afterKeyword (expr_gated gated)) fun filter third => ?_
  refine .bind (optionalReturning_gated gated) fun returning fourth => ?_
  refine .skip fun span => ?_
  exact .of_pure (by simpa [Update.features] using ⟨tables, first, second, third, fourth⟩)

/-- A deletion reads no feature that the dialect lacks, if its common tables do not. -/
lemma delete_gated :
    Ensures dialect (delete rules commonTables start)
      fun delete => dialect.Reads delete.features := by
  unfold delete
  refine .skip fun _ => .skip fun name => .skip fun aliasName => ?_
  refine .bind (.afterKeyword (expr_gated gated)) fun filter first => ?_
  refine .bind (optionalReturning_gated gated) fun returning second => ?_
  refine .skip fun span => ?_
  exact .of_pure (by simpa [Delete.features] using ⟨tables, first, second⟩)

/-- A statement about data reads no feature that the dialect lacks, if its common tables do not. -/
lemma dataStatementAfter_gated (expected : String) :
    Ensures dialect (dataStatementAfter rules commonTables start expected)
      fun statement => dialect.Reads statement.features := by
  unfold dataStatementAfter
  refine .skip fun view => .ite (fun _ => ?_) fun _ => .ite (fun _ => ?_) fun _ =>
    .ite (fun _ => ?_) fun _ => .ite (fun _ => ?_) fun _ => .of_unexpected _
  · exact .bind (queryAfter_gated gated start tables) fun statement reads => .of_pure reads
  · exact .bind (insert_gated gated start tables) fun statement reads => .of_pure reads
  · exact .bind (update_gated gated start tables) fun statement reads => .of_pure reads
  · exact .bind (delete_gated gated start tables) fun statement reads => .of_pure reads

end

/-- A statement about data reads no feature that the dialect lacks. -/
lemma dataStatement_gated (expected : String) :
    Ensures dialect (dataStatement rules expected)
      fun statement => dialect.Reads statement.features := by
  unfold dataStatement
  refine .skip fun start => .skip fun named => .ite (fun _ => ?_) fun _ => ?_
  · exact .bind (withClause_gated gated) fun clause reads =>
      dataStatementAfter_gated gated start (by simpa using reads) _
  · exact dataStatementAfter_gated gated start (by simp) _

/-! ## Constraints -/

/-- A generated column is read after the demand for its feature. -/
lemma generatedBy_gated (start : Span) (always : Bool) :
    Ensures dialect (generatedBy rules start always) fun kind => dialect.Reads kind.features := by
  unfold generatedBy
  refine .require fun has => ?_
  refine .bind (.parenthesized (expr_gated gated)) fun expr reads => ?_
  exact .skip fun storage =>
    .of_pure (by simpa [ColumnConstraintKind.features] using ⟨has, reads⟩)

omit gated in
/-- A name in Dart is read after the demand for the drift extensions. -/
lemma dartName_gated : Ensures dialect dartName fun kind => dialect.Reads kind.features := by
  unfold dartName
  refine .skip fun here => ?_
  refine .require fun drift => ?_
  refine .skip fun _ => .skip fun name => ?_
  exact .of_pure (by simpa [ColumnConstraintKind.features] using drift)

omit gated in
/-- A key in JSON is read after the demand for the drift extensions. -/
lemma jsonKey_gated : Ensures dialect jsonKey fun kind => dialect.Reads kind.features := by
  unfold jsonKey
  refine .skip fun here => ?_
  refine .require fun drift => ?_
  refine .skip fun _ => .skip fun _ => .skip fun name => ?_
  exact .of_pure (by simpa [ColumnConstraintKind.features] using drift)

omit gated in
/-- Of the constraints without parts, keys and tests for null use no feature. -/
lemma columnPrimaryKey_gated :
    Ensures dialect columnPrimaryKey fun kind => dialect.Reads kind.features := by
  unfold columnPrimaryKey
  refine .skip fun _ => .skip fun _ => .skip fun direction => .skip fun onConflict => ?_
  refine .skip fun autoincrement => ?_
  exact .of_pure (by simp [ColumnConstraintKind.features])

omit gated in
/-- `NOT NULL` reads no feature. -/
lemma notNull_gated : Ensures dialect notNull fun kind => dialect.Reads kind.features := by
  unfold notNull
  refine .skip fun _ => .skip fun _ => .skip fun onConflict => ?_
  exact .of_pure (by simp [ColumnConstraintKind.features])

omit gated in
/-- A kind that is found, as the kind of a constraint that may be missing. -/
lemma found_gated {parser : Parser ColumnConstraintKind}
    (kind : Ensures dialect parser fun kind => dialect.Reads kind.features) :
    Ensures dialect (do return some (← parser))
      fun found => ∀ kind ∈ found, dialect.Reads kind.features :=
  .bind kind fun value reads => .of_pure (by simpa using reads)

/-- A constraint of a column reads no feature that the dialect lacks.

**Proof sketch.** By the keyword that is next. Most constraints read no feature themselves, and what
they contain is gated. Generated columns, `MAPPED BY`, JSON keys and names in Dart are read after
their demands, as the lemmas about them say. -/
lemma columnConstraintKind_gated (start : Span) :
    Ensures dialect (columnConstraintKind rules start)
      fun found => ∀ kind ∈ found, dialect.Reads kind.features := by
  unfold columnConstraintKind
  refine .skip fun view => ?_
  split
  · exact found_gated columnPrimaryKey_gated
  · exact found_gated notNull_gated
  · exact .skip fun _ => .of_pure (by simp [ColumnConstraintKind.features])
  · refine .skip fun _ => .skip fun onConflict => ?_
    exact .of_pure (by simp [ColumnConstraintKind.features])
  · refine .skip fun _ => ?_
    refine .bind (.parenthesized (expr_gated gated)) fun expr reads => ?_
    exact .of_pure (by simpa [ColumnConstraintKind.features] using reads)
  · refine .skip fun _ => ?_
    refine .bind (gated.operators _) fun expr reads => ?_
    exact .of_pure (by simpa [ColumnConstraintKind.features] using reads)
  · refine .skip fun _ => .skip fun name => ?_
    exact .of_pure (by simp [ColumnConstraintKind.features])
  · exact .skip fun _ => .of_pure (by simp [ColumnConstraintKind.features])
  · refine .ite (fun _ => ?_) fun _ => .of_pure (by simp)
    refine .skip fun _ => .skip fun _ => .skip fun _ => ?_
    exact found_gated (generatedBy_gated gated _ _)
  · refine .ite (fun _ => ?_) fun _ => found_gated dartName_gated
    exact .skip fun _ => found_gated (generatedBy_gated gated _ _)
  · refine .ite (fun _ => ?_) fun _ => .of_pure (by simp)
    exact .bind mappedBy_gated fun code drift =>
      .of_pure (by simpa [ColumnConstraintKind.features] using drift)
  · exact .ite (fun _ => found_gated jsonKey_gated) fun _ => .of_pure (by simp)
  · exact .of_pure (by simp)

/-- A turn of the loop over the constraints of a column reads no feature that the dialect lacks. -/
lemma nextColumnConstraint_gated :
    Ensures dialect (nextColumnConstraint rules)
      fun found => ∀ constraint ∈ found, dialect.Reads constraint.kind.features := by
  unfold nextColumnConstraint
  refine .skip fun start => .skip fun name => ?_
  refine .bind (columnConstraintKind_gated gated start) fun kind reads => ?_
  split
  · exact .skip fun span => .of_pure (by simpa using reads)
  · exact .ite (fun _ => .of_unexpected _) fun _ => .of_pure (by simp)

/-- The definition of a column reads no feature that the dialect lacks. -/
lemma columnDefinition_gated :
    Ensures dialect (columnDefinition rules) fun column => dialect.Reads column.features := by
  unfold columnDefinition
  refine .skip fun start => .skip fun name => .skip fun type => ?_
  refine .bind (.many (nextColumnConstraint_gated gated) _) fun constraints reads => ?_
  exact .skip fun span => .of_pure (by simpa [ColumnDefinition.features] using reads)

/-- The kind of a constraint of a table reads no feature that the dialect lacks. -/
lemma tableConstraintKind_gated :
    Ensures dialect (tableConstraintKind rules) fun kind => dialect.Reads kind.features := by
  unfold tableConstraintKind
  refine .skip fun primary => .ite (fun _ => ?_) fun _ => ?_
  · refine .skip fun _ => ?_
    refine .bind (.parenthesized (indexedColumns_gated gated)) fun columns reads => ?_
    exact .skip fun conflict => .of_pure (by simpa [TableConstraintKind.features] using reads)
  refine .skip fun unique => .ite (fun _ => ?_) fun _ => ?_
  · refine .bind (.parenthesized (indexedColumns_gated gated)) fun columns reads => ?_
    exact .skip fun conflict => .of_pure (by simpa [TableConstraintKind.features] using reads)
  refine .skip fun check => .ite (fun _ => ?_) fun _ => ?_
  · exact .bind (.parenthesized (expr_gated gated)) fun expr reads => .of_pure reads
  refine .skip fun foreign => .ite (fun _ => ?_) fun _ => .of_unexpected _
  refine .skip fun _ => .skip fun columns => .skip fun key => ?_
  exact .of_pure (by simp [TableConstraintKind.features])

/-- The constraint reads no feature that the dialect lacks. -/
lemma tableConstraint_gated :
    Ensures dialect (tableConstraint rules)
      fun constraint => dialect.Reads constraint.kind.features := by
  unfold tableConstraint
  refine .skip fun start => .skip fun name => ?_
  refine .bind (tableConstraintKind_gated gated) fun kind reads => ?_
  exact .skip fun span => .of_pure reads

/-! ## Statements that create things -/

omit gated in
/-- A row class is read after the demand for the drift extensions. -/
lemma rowClass_gated :
    Ensures dialect rowClass fun _ => dialect.supports .driftExtensions = true := by
  unfold rowClass
  refine .skip fun start => ?_
  refine .require fun drift => ?_
  refine .skip fun token => .skip fun name => .skip fun span => ?_
  exact .of_pure drift

/-- The members of a table that have been read use only features of the dialect. -/
def MembersRead (dialect : Dialect) (members : TableMembers) : Prop :=
  (∀ column ∈ members.columns, dialect.Reads column.features) ∧
    ∀ constraint ∈ members.constraints, dialect.Reads constraint.kind.features

/-- A column or a constraint adds no feature that the dialect lacks to what was read of a table. -/
lemma tableMember_gated {members : TableMembers} (read : MembersRead dialect members) :
    Ensures dialect (tableMember rules members) (MembersRead dialect) := by
  obtain ⟨columns, constraints⟩ := read
  unfold tableMember
  refine .skip fun atConstraint => .ite (fun _ => ?_) fun _ => .ite (fun _ => ?_)
    fun _ => .of_unexpected _
  · exact .bind (tableConstraint_gated gated) fun constraint reads =>
      .of_pure ⟨columns, by simpa using ⟨reads, constraints⟩⟩
  · exact .bind (columnDefinition_gated gated) fun column reads =>
      .of_pure ⟨by simpa using ⟨reads, columns⟩, constraints⟩

/-- The columns and constraints of a table read no feature that the dialect lacks. -/
lemma tableMembers_gated : Ensures dialect (tableMembers rules) (MembersRead dialect) := by
  unfold tableMembers
  refine .bind (tableMember_gated gated ⟨by simp, by simp⟩) fun first read => ?_
  refine .iterate (fun members read => ?_) _ read
  refine .skip fun comma => .ite (fun _ => ?_) fun _ => .of_pure (by simp)
  exact .bind (tableMember_gated gated read) fun next read => .of_pure (by simpa using read)

omit gated in
/-- A strict table is accepted only where the dialect has them. -/
lemma tableOption_gated :
    Ensures dialect tableOption
      fun option => option = .strict → dialect.supports .strictTables = true := by
  unfold tableOption
  refine .skip fun without => .ite (fun _ => ?_) fun _ => ?_
  · refine .skip fun rowid => .ite (fun _ => ?_) fun _ => .of_unexpected _
    exact .skip fun _ => .of_pure (by simp)
  refine .skip fun strict => .ite (fun _ => ?_) fun _ => .of_unexpected _
  refine .skip fun here => ?_
  refine .require fun has => ?_
  exact .skip fun _ => .of_pure fun _ => has

omit gated in
/-- `STRICT` is only read where the dialect has strict tables. -/
lemma tableOptions_gated :
    Ensures dialect (tableOptions rules)
      fun options => options.contains .strict = true → dialect.supports .strictTables = true := by
  unfold tableOptions
  refine .bind (.whenever (.commaSeparated tableOption_gated _)) fun options has => .of_pure ?_
  cases options with
  | none => simp
  | some list => exact fun mem => has list rfl _ (by simpa using mem) rfl

/-- The definition of a table reads no feature that the dialect lacks. -/
lemma tableDefinition_gated :
    Ensures dialect (tableDefinition rules)
      fun definition => dialect.Reads definition.features := by
  unfold tableDefinition
  refine .bind (.parenthesized (tableMembers_gated gated)) fun members read => ?_
  refine .ite (fun _ => .of_unexpected _) fun _ => ?_
  refine .bind tableOptions_gated fun options strict => ?_
  refine .bind (.whenever rowClass_gated) fun rowClass drift => .of_pure ?_
  obtain ⟨columns, constraints⟩ := read
  cases rowClass <;> simp_all [TableDefinition.features]

/-- The creation of a table reads no feature that the dialect lacks. -/
lemma createTable_gated (start : Span) (temporary : Bool) :
    Ensures dialect (createTable rules start temporary)
      fun table => dialect.Reads table.features := by
  unfold createTable
  refine .skip fun _ => .skip fun ifNotExists => .skip fun name => .skip fun rows => ?_
  refine .ite (fun _ => ?_) fun _ => ?_
  · refine .bind gated.query fun rows reads => ?_
    refine .skip fun span => .of_pure ?_
    simpa [CreateTable.features, TableDefinition.features, Feature.usedIf] using reads
  · refine .bind (tableDefinition_gated gated) fun definition reads => ?_
    refine .skip fun span => .of_pure ?_
    simpa [CreateTable.features] using reads

/-- The creation of a view reads no feature that the dialect lacks. -/
lemma createView_gated (start : Span) (temporary : Bool) :
    Ensures dialect (createView rules start temporary)
      fun view => dialect.Reads (Statement.createView view).features := by
  unfold createView
  refine .skip fun _ => .skip fun ifNotExists => .skip fun name => .skip fun columns => ?_
  refine .bind (.whenever rowClass_gated) fun rowClass drift => ?_
  refine .skip fun _ => ?_
  refine .bind gated.query fun query reads => ?_
  refine .skip fun span => .of_pure ?_
  cases rowClass <;> simp_all [Statement.features]

/-- A statement of a trigger reads no feature that the dialect lacks. -/
lemma triggerStatement_gated :
    Ensures dialect (triggerStatement rules)
      fun statement => dialect.Reads statement.features := by
  unfold triggerStatement
  refine .bind (dataStatement_gated gated _) fun statement reads => ?_
  refine .skip fun _ => ?_
  exact .of_pure reads

/-- The body of a trigger reads no feature that the dialect lacks. -/
lemma triggerBody_gated :
    Ensures dialect (triggerBody rules)
      fun body => ∀ statement ∈ body, dialect.Reads statement.features := by
  have next : Ensures dialect
      (do if ← eatKeyword .END then return none else return some (← triggerStatement rules))
      fun next => ∀ statement ∈ next, dialect.Reads statement.features := by
    refine .skip fun ended => .ite (fun _ => .of_pure (by simp)) fun _ => ?_
    exact .bind (triggerStatement_gated gated) fun statement reads =>
      .of_pure (by simpa using reads)
  unfold triggerBody
  refine .skip fun _ => ?_
  refine .bind (triggerStatement_gated gated) fun first reads => ?_
  exact .bind (.many next _) fun rest others => .of_pure (by simpa using ⟨reads, others⟩)

/-- The creation of a trigger reads no feature that the dialect lacks. -/
lemma createTrigger_gated (start : Span) (temporary : Bool) :
    Ensures dialect (createTrigger rules start temporary)
      fun trigger => dialect.Reads (Statement.createTrigger trigger).features := by
  unfold createTrigger
  refine .skip fun _ => .skip fun ifNotExists => .skip fun name => .skip fun timing => ?_
  refine .skip fun event => .skip fun _ => .skip fun table => .skip fun forEachRow => ?_
  refine .bind (.afterKeyword (expr_gated gated)) fun condition first => ?_
  refine .bind (triggerBody_gated gated) fun body second => ?_
  refine .skip fun span => .of_pure ?_
  simpa [Statement.features, CreateTrigger.features] using And.intro first second

/-- The creation of an index reads no feature that the dialect lacks. -/
lemma createIndex_gated (start : Span) :
    Ensures dialect (createIndex rules start)
      fun index => dialect.Reads (Statement.createIndex index).features := by
  unfold createIndex
  refine .skip fun unique => .skip fun _ => .skip fun ifNotExists => .skip fun name => ?_
  refine .skip fun _ => .skip fun table => ?_
  refine .bind (.parenthesized (indexedColumns_gated gated)) fun columns first => ?_
  refine .bind (.afterKeyword (expr_gated gated)) fun filter second => ?_
  refine .skip fun span => ?_
  exact .of_pure (by simpa [Statement.features] using ⟨first, second⟩)

/-- A creation reads no feature that the dialect lacks. -/
lemma creation_gated :
    Ensures dialect (creation rules) fun statement => dialect.Reads statement.features := by
  unfold creation
  -- what is made is read in the same way after `TEMP` and after `TEMPORARY`, or neither
  refine .skip fun start => .skip fun place => .skip fun temp => ?_
  refine .ite (fun _ => .skip fun temporary => ?_) fun _ => .skip fun temporary => ?_
  all_goals
    refine .skip fun token => ?_
    split
    · exact .bind (createTable_gated gated _ _) fun table reads => .of_pure reads
    · exact .bind (createView_gated gated _ _) fun view reads => .of_pure reads
    · exact .bind (createTrigger_gated gated _ _) fun trigger reads => .of_pure reads
    · refine .ite (fun _ => .of_invalid _ _) fun _ => .skip fun table => .of_pure ?_
      simp [Statement.features]
    iterate 2
      refine .ite (fun _ => .of_invalid _ _) fun _ => ?_
      exact .bind (createIndex_gated gated _) fun index reads => .of_pure reads
    · exact .of_unexpected _

/-- **Statements read no feature that the dialect lacks.** -/
lemma statement_gated :
    Ensures dialect (statement rules) fun statement => dialect.Reads statement.features := by
  unfold statement
  refine .skip fun create => .ite (fun _ => creation_gated gated) fun _ => ?_
  exact .bind (dataStatement_gated gated _) fun statement reads => .of_pure reads

/-! ## Whole sources -/

omit gated in
/-- Entries ended by semicolons read no feature that the dialect lacks, if one entry does not. -/
lemma entries_gated {α : Type} {features : α → List Feature} {entry : Parser α}
    (each : Ensures dialect entry fun value => dialect.Reads (features value)) :
    Ensures dialect (entries rules entry)
      fun list => ∀ value ∈ list, dialect.Reads (features value) := by
  unfold entries nextEntry
  refine .many (.skip fun _ => .skip fun ended => .ite (fun _ => ?_) fun _ => ?_) _
  · exact .of_pure (by simp)
  · refine .bind each fun value reads => ?_
    refine .skip fun _ => ?_
    exact .of_pure (by simpa using reads)

/-- Scripts read no feature that the dialect lacks. -/
lemma script_gated :
    Ensures dialect (script rules)
      fun list => ∀ statement ∈ list, dialect.Reads statement.features :=
  entries_gated (statement_gated gated)

/-- Sources that are statements read no feature that the dialect lacks. -/
lemma wholeStatement_gated :
    Ensures dialect (wholeStatement rules) fun statement => dialect.Reads statement.features := by
  unfold wholeStatement
  refine .bind (statement_gated gated) fun statement reads => ?_
  refine .skip fun _ => .skip fun _ => ?_
  exact .of_pure reads

/-- Sources that are expressions read no feature that the dialect lacks. -/
lemma wholeExpression_gated :
    Ensures dialect (wholeExpression rules) fun expr => dialect.Reads expr.features := by
  unfold wholeExpression
  refine .bind (expr_gated gated) fun expr reads => ?_
  refine .skip fun _ => ?_
  exact .of_pure reads

/-! ## Drift files -/

/-- A hint about a variable reads no feature that the dialect lacks. -/
lemma statementParameter_gated :
    Ensures dialect (statementParameter rules)
      fun parameter => dialect.Reads parameter.features := by
  unfold statementParameter
  refine .skip fun view => ?_
  split
  · unfold defaultValue
    refine .skip fun start => .skip fun _ => .skip fun _ => ?_
    refine .bind (expr_gated gated) fun value reads => ?_
    exact .skip fun span => .of_pure reads
  · unfold typedVariable
    refine .skip fun start => .skip fun required => .skip fun token => ?_
    split
    · refine .skip fun _ => .skip fun type => .skip fun span => ?_
      exact .of_pure (by simp [StatementParameter.features])
    · exact .of_unexpected _

/-- Lists of hints about variables read no feature that the dialect lacks. -/
lemma statementParameters_gated :
    Ensures dialect (statementParameters rules)
      fun parameters => ∀ parameter ∈ parameters, dialect.Reads parameter.features := by
  have listed : Ensures dialect
      (do
        if ← sees (·.atSymbol .rightParen) then
          return []
        else
          commaSeparated rules.limit (statementParameter rules))
      fun parameters => ∀ parameter ∈ parameters, dialect.Reads parameter.features :=
    .skip fun closed => .ite (fun _ => .of_pure (by simp)) fun _ =>
      .commaSeparated (statementParameter_gated gated) _
  unfold statementParameters
  refine .bind (.whenever (.parenthesized listed)) fun parameters reads => .of_pure ?_
  cases parameters <;> simp_all

/-- A named statement reads no feature that the dialect lacks. -/
lemma declaredStatement_gated :
    Ensures dialect (declaredStatement rules)
      fun entry => dialect.Reads (DriftEntry.declared entry).features := by
  unfold declaredStatement
  refine .skip fun start => .skip fun name => ?_
  refine .bind (statementParameters_gated gated) fun parameters first => ?_
  refine .skip fun resultClass => .skip fun _ => ?_
  refine .bind (statement_gated gated) fun statement second => ?_
  refine .skip fun span => .of_pure ?_
  simpa [DriftEntry.features] using ⟨first, second⟩

/-- Entries of drift files read no feature that the dialect lacks. -/
lemma driftEntry_gated :
    Ensures dialect (driftEntry rules) fun entry => dialect.Reads entry.features := by
  unfold driftEntry
  refine .skip fun view => ?_
  split
  · refine .skip fun _ => .skip fun _ => .skip fun span => ?_
    exact .of_pure (by simp [DriftEntry.features])
  · refine .ite (fun _ => ?_) fun _ => .ite (fun _ => ?_) fun _ => ?_
    · refine .skip fun _ => .skip fun _ => ?_
      refine .bind (statement_gated gated) fun statement reads => ?_
      exact .skip fun span => .of_pure reads
    · exact .bind (declaredStatement_gated gated) fun entry reads => .of_pure reads
    · exact .bind (statement_gated gated) fun statement reads => .of_pure reads

/-- A drift file is read after the demand for the drift extensions, and reads no other feature that
the dialect lacks. -/
lemma driftFile_gated :
    Ensures dialect (driftFile rules) fun file => dialect.Reads file.features := by
  unfold driftFile
  refine .skip fun start => ?_
  refine .require fun drift => ?_
  refine .bind (entries_gated (driftEntry_gated gated)) fun list reads => .of_pure ?_
  simpa [DriftFile.features] using ⟨drift, reads⟩

end

end SqlTree.Grammar
