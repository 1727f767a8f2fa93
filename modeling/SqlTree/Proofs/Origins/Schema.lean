import SqlTree.Proofs.Origins.Change
import SqlTree.Proofs.Reread.Creation

set_option autoImplicit false

/-!
# Where the parts of statements that create things come from

## Main results

* `SqlTree.Grammar.statement_traced` — all nodes of a statement are traced, if it ends as a
  statement has to end. -/

namespace SqlTree.Grammar

open SqlTree.Parser SqlTree.Node Cursor

variable {site : Site} {limit depth : Nat} (traced : (rules limit depth).Traced site)

/-! ## Constraints of columns -/

/-- The name of a type is traced, as it has no children. -/
lemma typeName_traced :
    Gives site (typeName (rules limit depth).limit)
      fun type => (Node.typeName type).Traced site :=
  .own (typeName ·.limit) .typeName fun _ _ _ _ _ _ => by simp [Node.children]

/-- What a foreign key refers to is traced, as it has no children. -/
lemma foreignKey_traced :
    Gives site (foreignKey (rules limit depth))
      fun key => (Node.foreignKey key).Traced site :=
  .own foreignKey .foreignKey fun _ _ _ _ _ _ => by simp [Node.children]

/-- A row class is traced, as it has no children. -/
lemma rowClass_traced :
    Gives site rowClass fun rowClass => (Node.rowClass rowClass).Traced site :=
  @GivesBefore.own _ _ 0 0 _ _ (fun _ => rowClass) .rowClass
    fun _ _ _ _ _ _ => by simp [Node.children]

include traced

/-- What is below a generated value is traced: its expression. -/
lemma generatedBy_traced (start : Span) (always : Bool) :
    Gives site (generatedBy (rules limit depth) start always)
      fun kind => AllTraced site (ofColumnConstraintKind kind) := by
  unfold generatedBy
  refine .skip fun _ => ?_
  refine .bind (.parenthesized (expr_traced traced) fun _ _ => trivial) fun expr first => ?_
  exact .skip fun storage => .of_pure (by simpa [ofColumnConstraintKind] using first)

omit traced in
/-- A constraint without nodes below it. -/
lemma plain_traced {parser : Parser ColumnConstraintKind}
    (plain : parser.Yields (·.isPlain = true)) :
    Gives site (do return some (← parser))
      fun kind => ∀ part ∈ kind, AllTraced site (ofColumnConstraintKind part) := by
  have gives : Gives site parser fun kind => AllTraced site (ofColumnConstraintKind kind) := by
    intro cursor kind stop here run _
    rw [ColumnConstraintKind.children_of_isPlain (plain run)]
    exact allTraced_nil
  exact .bind gives fun kind first => .of_pure (by simpa using first)

/-- What is below a constraint of a column is traced.

**Proof sketch.** By the keyword that is next. Only a check, a default in parentheses, a generated
value and a foreign key have anything below them, which their own parsers trace. Every other kind
has nothing below it, whatever its parser read (`plain_traced`). -/
lemma columnConstraintKind_traced (start : Span) :
    Gives site (columnConstraintKind (rules limit depth) start)
      fun kind => ∀ part ∈ kind, AllTraced site (ofColumnConstraintKind part) := by
  unfold columnConstraintKind
  refine .skip fun view => ?_
  split
  · exact plain_traced columnPrimaryKey_isPlain
  · exact plain_traced notNull_isPlain
  · exact .skip fun _ => .of_pure (by simp [ofColumnConstraintKind])
  · refine .skip fun _ => .skip fun onConflict => ?_
    exact .of_pure (by simp [ofColumnConstraintKind])
  · refine .skip fun _ => ?_
    refine .bind (.parenthesized (expr_traced traced) fun _ _ => trivial) fun expr first => ?_
    exact .of_pure (by simpa [ofColumnConstraintKind] using first)
  · refine .skip fun _ => ?_
    refine .bind (traced.operators _) fun expr first => ?_
    exact .of_pure (by simpa [ofColumnConstraintKind] using first)
  · refine .skip fun _ => .skip fun name => ?_
    exact .of_pure (by simp [ofColumnConstraintKind])
  · exact .bind foreignKey_traced fun key first =>
      .of_pure (by simpa [ofColumnConstraintKind] using first)
  · refine .ite (.skip fun _ => .skip fun _ => .skip fun _ => ?_) (.of_pure (by simp))
    exact .bind (generatedBy_traced traced _ _) fun kind first => .of_pure (by simpa using first)
  · refine .ite (.skip fun _ => ?_) (plain_traced dartName_isPlain)
    exact .bind (generatedBy_traced traced _ _) fun kind first => .of_pure (by simpa using first)
  · refine .ite ?_ (.of_pure (by simp))
    refine .skip fun code => ?_
    exact .of_pure (by simp [ofColumnConstraintKind])
  · exact .ite (plain_traced jsonKey_isPlain) (.of_pure (by simp))
  · exact .of_pure (by simp)

/-- A further constraint of a column is traced. -/
lemma nextColumnConstraint_traced :
    Gives site (nextColumnConstraint (rules limit depth))
      fun next => ∀ constraint ∈ next, (Node.columnConstraint constraint).Traced site := by
  refine .ownMaybe nextColumnConstraint .columnConstraint ?_
  unfold nextColumnConstraint
  refine .skip fun start => .skip fun name => ?_
  refine .bind (columnConstraintKind_traced traced start) fun kind first => ?_
  split
  · exact .skip fun span => .of_pure (by simpa [Node.children] using first _ rfl)
  · exact .ite (.of_unexpected _) (.of_pure (by simp))

/-- The definition of a column is traced: its type and its constraints. -/
lemma columnDefinition_traced :
    Gives site (columnDefinition (rules limit depth))
      fun column => (Node.columnDefinition column).Traced site := by
  refine .own columnDefinition .columnDefinition ?_
  unfold columnDefinition
  refine .skip fun start => .skip fun name => ?_
  refine .bind (.whenever typeName_traced) fun type first => ?_
  refine .bind (.many (nextColumnConstraint_traced traced) _) fun constraints second => ?_
  exact .skip fun span => .of_pure (by simpa [Node.children] using ⟨first, second⟩)

/-! ## Constraints of tables -/

/-- What is below a constraint of a table is traced: the columns of a key, a condition or a foreign
key. -/
lemma tableConstraintKind_traced :
    Gives site (tableConstraintKind (rules limit depth))
      fun kind => AllTraced site (ofTableConstraintKind kind) := by
  unfold tableConstraintKind
  refine .skip fun primary => .ite (.skip fun _ => ?_) (.skip fun unique => .ite ?_ ?_)
  · refine .bind (indexedColumns_traced traced) fun columns first => ?_
    refine .skip fun conflict => ?_
    exact .of_pure (by simpa [ofTableConstraintKind] using first)
  · refine .bind (indexedColumns_traced traced) fun columns first => ?_
    refine .skip fun conflict => ?_
    exact .of_pure (by simpa [ofTableConstraintKind] using first)
  · refine .skip fun check => .ite ?_ (.skip fun foreign => .ite ?_ (.of_unexpected _))
    · exact .bind (.parenthesized (expr_traced traced) fun _ _ => trivial) fun expr first =>
        .of_pure (by simpa [ofTableConstraintKind] using first)
    · refine .skip fun _ => .skip fun columns => ?_
      refine .bind foreignKey_traced fun key first => ?_
      exact .of_pure (by simpa [ofTableConstraintKind] using first)

/-- A constraint of a table is traced. -/
lemma tableConstraint_traced :
    Gives site (tableConstraint (rules limit depth))
      fun constraint => (Node.tableConstraint constraint).Traced site := by
  refine .own tableConstraint .tableConstraint ?_
  unfold tableConstraint
  refine .skip fun start => .skip fun name => ?_
  refine .bind (tableConstraintKind_traced traced) fun kind first => ?_
  refine .skip fun span => ?_
  exact .of_pure (by simpa [Node.children] using first)

/-! ## Tables -/

omit traced in
/-- The members of a table that have been read are traced. -/
def TableMembers.Traced (site : Site) (members : TableMembers) : Prop :=
  (∀ column ∈ members.columns, (Node.columnDefinition column).Traced site) ∧
    ∀ constraint ∈ members.constraints, (Node.tableConstraint constraint).Traced site

/-- A further member of a table is traced, and those before it remain so. -/
lemma tableMember_traced {members : TableMembers} (before : members.Traced site) :
    Gives site (tableMember (rules limit depth) members) (TableMembers.Traced site) := by
  unfold tableMember
  refine .skip fun isConstraint => .ite ?_ (.ite ?_ (.of_unexpected _))
  · refine .bind (tableConstraint_traced traced) fun constraint first => .of_pure ⟨before.1, ?_⟩
    simpa using ⟨first, before.2⟩
  · refine .bind (columnDefinition_traced traced) fun column first => .of_pure ⟨?_, before.2⟩
    simpa using ⟨first, before.1⟩

/-- The members of a table are traced, by the lemma about loops that carry what was read before. -/
lemma tableMembers_traced :
    Gives site (tableMembers (rules limit depth)) (TableMembers.Traced site) := by
  unfold tableMembers
  refine .bind (tableMember_traced traced ⟨by simp, by simp⟩) fun first before => ?_
  refine .iterate (fun members before => .skip fun comma => .ite ?_ (.of_pure (by simp))) _ before
  exact .bind (tableMember_traced traced before) fun members holds =>
    .of_pure (by simpa using holds)

/-- What is below the definition of a table is traced. -/
lemma tableDefinition_traced :
    Gives site (tableDefinition (rules limit depth))
      fun definition => AllTraced site (ofTableDefinition definition) := by
  unfold tableDefinition
  refine .bind (.parenthesized (tableMembers_traced traced) fun _ _ => trivial) ?_
  rintro members ⟨first, second⟩
  refine .ite (.of_unexpected _) (.skip fun options => ?_)
  refine .bind (.whenever rowClass_traced) fun rowClass third => .of_pure ?_
  simpa [ofTableDefinition] using ⟨first, second, third⟩

/-- The children of `CREATE TABLE` are traced where the statement ends. A query after `AS` ends
there too. -/
lemma createTable_traced (start : Span) (temporary : Bool) :
    GivesBefore site AtStatementEnd (createTable (rules limit depth) start temporary)
      fun table => AllTraced site (Node.createTable table).children := by
  unfold createTable
  refine .skip fun _ => .skip fun exists_ => .skip fun ⟨schema, name⟩ => .skip fun as => .ite ?_ ?_
  · refine .bindBefore traced.query ?_ fun rows first => .skip fun span => .of_pure ?_
    · intro rows middle table stop run ends
      obtain ⟨-, rfl⟩ := accepted_return run
      exact done_of_statementEnd ends
    · simpa [Node.children] using first
  · refine .bind (tableDefinition_traced traced) fun definition first => ?_
    refine .skip fun span => ?_
    refine .of_pure ?_
    rw [Node.children_createTable_of_asSelect rfl]
    exact first

/-! ## Views, triggers and indexes -/

/-- The children of `CREATE VIEW` are traced where the statement ends, as its query ends there. -/
lemma createView_traced (start : Span) (temporary : Bool) :
    GivesBefore site AtStatementEnd (createView (rules limit depth) start temporary)
      fun view => AllTraced site (Node.createView view).children := by
  unfold createView
  refine .skip fun _ => .skip fun exists_ => .skip fun ⟨schema, name⟩ => .skip fun columns => ?_
  refine .bind (.whenever rowClass_traced) fun rowClass first => ?_
  refine .skip fun _ => ?_
  refine .bindBefore traced.query ?_ fun rows second => .skip fun span => .of_pure ?_
  · intro rows middle view stop run ends
    obtain ⟨-, rfl⟩ := accepted_return run
    exact done_of_statementEnd ends
  · simpa [Node.children] using ⟨first, second⟩

/-- A statement of the body of a trigger is traced. It ends before its semicolon. -/
lemma triggerStatement_traced :
    Gives site (triggerStatement (rules limit depth))
      fun statement => statement.node.Traced site := by
  unfold triggerStatement
  refine .bindBefore (dataStatement_traced traced _) ?_ fun statement first =>
    .skip fun _ => .of_pure first
  intro statement middle _ stop run _
  have at_ := (accepted_expectSymbol run).1
  unfold AtStatementEnd
  rw [Rereading.kind_of_atSymbol at_]
  rfl

/-- Every statement of the body of a trigger is traced, the first and those of the loop. -/
lemma triggerBody_traced :
    Gives site (triggerBody (rules limit depth))
      fun body => ∀ statement ∈ body, statement.node.Traced site := by
  have next : Gives site
      (do
        if ← eatKeyword .END then
          return none
        else
          return some (← triggerStatement (rules limit depth)))
      fun next => ∀ statement ∈ next, statement.node.Traced site := by
    refine .skip fun isEnd => .ite (.of_pure (by simp)) ?_
    refine .bind (triggerStatement_traced traced) fun statement holds => ?_
    exact .of_pure (by simpa using holds)
  unfold triggerBody
  refine .skip fun _ => ?_
  refine .bind (triggerStatement_traced traced) fun first holds => ?_
  exact .bind (.many next _) fun others holds' => .of_pure (by simpa using ⟨holds, holds'⟩)

/-- The children of `CREATE TRIGGER` are traced: its condition and its body. -/
lemma createTrigger_traced (start : Span) (temporary : Bool) :
    Gives site (createTrigger (rules limit depth) start temporary)
      fun trigger => AllTraced site (Node.createTrigger trigger).children := by
  unfold createTrigger
  refine .skip fun _ => .skip fun exists_ => .skip fun ⟨schema, name⟩ => .skip fun timing => ?_
  refine .skip fun event => .skip fun _ => .skip fun table => .skip fun each => ?_
  refine .bind (.afterKeyword (expr_traced traced)) fun condition first => ?_
  refine .bind (triggerBody_traced traced) fun body second => ?_
  refine .skip fun span => ?_
  exact .of_pure (by simpa [Node.children] using ⟨first, second⟩)

/-- The children of `CREATE INDEX` are traced: its columns and its condition. -/
lemma createIndex_traced (start : Span) :
    Gives site (createIndex (rules limit depth) start)
      fun index => AllTraced site (Node.createIndex index).children := by
  unfold createIndex
  refine .skip fun unique => .skip fun _ => .skip fun exists_ => .skip fun ⟨schema, name⟩ => ?_
  refine .skip fun _ => .skip fun table => ?_
  refine .bind (indexedColumns_traced traced) fun columns first => ?_
  refine .bind (filter_traced traced) fun filter second => ?_
  refine .skip fun span => ?_
  exact .of_pure (by simpa [Node.children] using ⟨first, second⟩)

/-! ## Statements -/

/-- What is created is traced, if it is read as a statement. -/
lemma created_traced (start place : Span) (temporary : Bool) :
    GivesBefore site AtStatementEnd (created (rules limit depth) start place temporary)
      fun created => (MadeBefore site AtStatementEnd Grammar.statement created →
        created.node.IsRead site) ∧ AllTraced site created.node.children := by
  unfold created
  refine .skip fun token => ?_
  split
  · exact .last (createTable_traced traced _ _) fun table first => ⟨.createTable, first⟩
  · exact .last (createView_traced traced _ _) fun view first => ⟨.createView, first⟩
  · exact .bind (createTrigger_traced traced _ _) fun trigger first =>
      .of_pure ⟨.createTrigger, first⟩
  · refine .ite (.of_invalid _ _) ?_
    refine .skip fun table => ?_
    exact .of_pure ⟨.createVirtualTable, by simp [Statement.node, Node.children]⟩
  iterate 2
    · refine .ite (.of_invalid _ _) ?_
      exact .bind (createIndex_traced traced _) fun index first => .of_pure ⟨.createIndex, first⟩
  · exact .of_unexpected _

/-- **All nodes of a statement are traced**, if it ends as a statement has to end. -/
lemma statement_traced :
    GivesBefore site AtStatementEnd (statement (rules limit depth))
      fun statement => statement.node.Traced site := by
  have creation_traced : GivesBefore site AtStatementEnd (creation (rules limit depth))
      fun creation => (MadeBefore site AtStatementEnd Grammar.statement creation →
        creation.node.IsRead site) ∧ AllTraced site creation.node.children := by
    rw [creation_eq]
    refine .skip fun start => .skip fun place => .skip fun temp => ?_
    refine .ite (created_traced traced _ _ _) ?_
    refine .skip fun temporary => ?_
    exact created_traced traced _ _ _
  intro cursor statement stop here run ends
  have made : MadeBefore site AtStatementEnd Grammar.statement statement :=
    ⟨limit, depth, cursor, stop, here, run, ends⟩
  unfold Grammar.statement at run
  rw [run_sees_bind] at run
  split at run
  · obtain ⟨is_read, below⟩ := creation_traced here run ends
    exact traced_iff.mpr ⟨is_read made, below⟩
  · obtain ⟨inner, middle, first, -, last⟩ := accepted_bind run
    obtain ⟨rfl, rfl⟩ := accepted_pure last
    exact dataStatement_traced traced _ here first ends

end SqlTree.Grammar
