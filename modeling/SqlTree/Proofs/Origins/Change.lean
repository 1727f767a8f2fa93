import SqlTree.Proofs.Origins.Query

set_option autoImplicit false

/-!
# Where the parts of statements that change rows come from

## Main results

* `SqlTree.Grammar.dataStatement_traced` — all nodes of a statement that reads or changes rows are
  traced, if it ends as a statement has to end.
-/

namespace SqlTree.Grammar

open SqlTree.Parser SqlTree.Node Cursor

variable {site : Site} {limit depth : Nat} (traced : (rules limit depth).Traced site)

/-- Where a statement may end, no expression goes on. -/
lemma done_of_statementEnd {cursor : Cursor} (ends : cursor.AtStatementEnd) :
    Rereading.Done cursor := by
  unfold Rereading.Done
  rcases Rereading.EndsAt.cases_kind ends with ⟨which, mem, kind⟩ | kind
  · obtain rfl := List.mem_singleton.mp mem
    rw [kind]
    rfl
  · rw [kind]
    rfl

include traced

/-! ## Parts of several statements -/

/-- A column of an index is traced. -/
lemma indexedColumn_traced :
    Gives site (indexedColumn (rules limit depth))
      fun column => (Node.indexedColumn column).Traced site := by
  refine .own indexedColumn .indexedColumn ?_
  unfold indexedColumn
  refine .bind (expr_traced traced) fun expr first => ?_
  refine .skip fun direction => .skip fun span => ?_
  exact .of_pure (by simpa [Node.children] using first)

/-- The columns of an index are traced. -/
lemma indexedColumns_traced :
    Gives site (parenthesized (indexedColumns (rules limit depth)))
      fun columns => ∀ column ∈ columns, (Node.indexedColumn column).Traced site :=
  .parenthesized (.commaSeparated (indexedColumn_traced traced) _) fun _ _ => trivial

/-- An assignment is traced, to one column or to several. -/
lemma assignment_traced :
    Gives site (assignment (rules limit depth))
      fun assignment => (Node.assignment assignment).Traced site := by
  have value (start : Span) (columns : List String) :
      Gives site (Rereading.assignValue (rules limit depth) start columns)
        fun assignment => AllTraced site (Node.assignment assignment).children := by
    unfold Rereading.assignValue
    refine .skip fun _ => ?_
    refine .bind (expr_traced traced) fun value first => ?_
    refine .skip fun span => ?_
    exact .of_pure (by simpa [Node.children] using first)
  refine .own assignment .assignment ?_
  rw [Rereading.assignment_eq]
  refine .skip fun start => .skip fun paren => .ite ?_ ?_
  · exact .skip fun columns => value start columns
  · exact .skip fun column => value start [column]

/-- The assignments of a statement are traced. -/
lemma assignments_traced :
    Gives site (assignments (rules limit depth))
      fun list => ∀ assignment ∈ list, (Node.assignment assignment).Traced site :=
  .commaSeparated (assignment_traced traced) _

/-- The condition of `WHERE` is traced, if it is there. -/
lemma filter_traced :
    Gives site (afterKeyword .WHERE (rules limit depth).expr)
      fun filter => ∀ expr ∈ filter, (Node.expr expr).Traced site :=
  .afterKeyword (expr_traced traced)

/-- The columns after `RETURNING` are traced. -/
lemma returning_traced :
    Gives site (returning (rules limit depth))
      fun returning => (Node.returning returning).Traced site := by
  refine .own returning .returning ?_
  unfold returning
  refine .skip fun start => .skip fun _ => .skip fun _ => ?_
  refine .bind (.commaSeparated (resultColumn_traced traced) _) fun columns first => ?_
  exact .skip fun span => .of_pure (by simpa [Node.children] using first)

/-- `RETURNING` is traced, if it is there. -/
lemma optionalReturning_traced :
    Gives site (optionalReturning (rules limit depth))
      fun returning => ∀ part ∈ returning, (Node.returning part).Traced site :=
  .whenever (returning_traced traced)

/-! ## Insertions -/

/-- What is below the rows to insert is traced where they are done: rows of values, a query, or
nothing. -/
lemma insertSource_traced :
    GivesBefore site Rereading.Done (insertSource (rules limit depth))
      fun source => AllTraced site (ofInsertSource source) := by
  unfold insertSource
  refine .skip fun view => ?_
  dsimp only
  refine .ite ?_ (.ite ?_ (.ite ?_ ?_))
  · exact .bind (valuesClause_traced traced) fun clause first =>
      .of_pure (by simpa [ofInsertSource] using first)
  · exact .last traced.query fun rows first => by simpa [ofInsertSource] using first
  · refine .skip fun _ => .skip fun _ => .skip fun span => ?_
    exact .of_pure (by simp [ofInsertSource])
  · split
    · refine .skip fun drift => .ite ?_ (.of_unexpected _)
      refine .skip fun _ => ?_
      exact .of_pure (by simp [ofInsertSource])
    · exact .of_unexpected _

/-- The target of a conflict is traced: its columns and its condition. -/
lemma conflictTarget_traced :
    Gives site (conflictTarget (rules limit depth))
      fun target => (Node.conflictTarget target).Traced site := by
  refine .own conflictTarget .conflictTarget ?_
  unfold conflictTarget
  refine .skip fun start => ?_
  refine .bind (indexedColumns_traced traced) fun columns first => ?_
  refine .bind (filter_traced traced) fun filter second => ?_
  refine .skip fun span => ?_
  exact .of_pure (by simpa [Node.children] using ⟨first, second⟩)

/-- What is below the action on a conflict is traced. -/
lemma upsertAction_traced :
    Gives site (upsertAction (rules limit depth))
      fun action => AllTraced site (ofUpsertAction action) := by
  unfold upsertAction
  refine .skip fun _ => .skip fun nothing => .ite (.of_pure (by simp [ofUpsertAction])) ?_
  refine .skip fun _ => ?_
  refine .bind (assignments_traced traced) fun assignments first => ?_
  exact .bind (filter_traced traced) fun filter second =>
    .of_pure (by simpa [ofUpsertAction] using ⟨first, second⟩)

/-- A clause about conflicts is traced. -/
lemma upsert_traced :
    Gives site (upsert (rules limit depth)) fun upsert => (Node.upsert upsert).Traced site := by
  refine .own upsert .upsert ?_
  unfold upsert
  refine .skip fun start => .skip fun _ => .skip fun _ => ?_
  refine .bind (.whenever (conflictTarget_traced traced)) fun target first => ?_
  refine .bind (upsertAction_traced traced) fun action second => ?_
  refine .skip fun span => ?_
  exact .of_pure (by simpa [Node.children] using ⟨first, second⟩)

omit traced in
/-- The source of an insertion ends where a conflict clause starts, or the columns that are
returned, or where the statement ends. -/
lemma done_of_insertion {fuel : Nat} {rules : Rules} {middle stop : Cursor} {value : Insert}
    {make : List Upsert → Option Returning → Span → Insert} {start : Span}
    (run : (do
      let upserts ← many fuel (whenever (·.atKeywords .ON .CONFLICT) (upsert rules))
      let returning ← optionalReturning rules
      return make upserts returning (← spanFrom start) : Parser Insert).run site.dialect middle =
        .accepted value stop)
    (ends : stop.AtStatementEnd) : Rereading.Done middle := by
  obtain ⟨upserts, second, run₁, -, run⟩ := accepted_bind run
  obtain ⟨returning, third, run₂, -, run⟩ := accepted_bind run
  obtain ⟨-, rfl⟩ := accepted_return run
  have returned : Rereading.Done second :=
    Rereading.done_whenever (E := ⟨site.dialect, .written, rules, rules⟩) run₂ rfl
      (done_of_statementEnd ends)
  obtain ⟨less, -, ⟨-, first⟩ | ⟨part, others, next, -, first, -⟩⟩ := accepted_many run₁ <;>
    unfold whenever at first <;> rw [run_sees_bind] at first <;> split at first
  · obtain ⟨part, next, -, -, last⟩ := accepted_bind first
    cases (accepted_pure last).1
  · obtain ⟨-, rfl⟩ := accepted_pure first
    exact returned
  · next at_ =>
    have on : middle.view.atKeyword .ON = true := (Bool.and_eq_true_iff.mp at_).1
    exact Rereading.done_of_keyword on rfl
  · cases (accepted_pure first).1

variable {commonTables : Option WithClause}
  (tables : ∀ clause ∈ commonTables, (Node.withClause clause).Traced site) (start : Span)

include tables

/-- The children of an `INSERT` are traced where the statement ends, if the common tables before it
are. -/
lemma insert_traced :
    GivesBefore site AtStatementEnd (Grammar.insert (rules limit depth) commonTables start)
      fun insert => AllTraced site (Node.insert insert).children := by
  unfold Grammar.insert
  refine .skip fun mode => .skip fun _ => .skip fun ⟨schema, table⟩ => .skip fun aliasName => ?_
  refine .skip fun columns => ?_
  refine .bindBefore (insertSource_traced traced) (fun _ _ _ _ => done_of_insertion) ?_
  intro source first
  refine .bind (.many (.whenever (upsert_traced traced)) _) fun upserts second => ?_
  refine .bind (optionalReturning_traced traced) fun returning third => ?_
  refine .skip fun span => ?_
  exact .of_pure (by simpa [Node.children] using ⟨tables, first, second, third⟩)

/-! ## Updates and deletions -/

/-- The children of an `UPDATE` are traced, if the common tables before it are. -/
lemma update_traced :
    Gives site (update (rules limit depth) commonTables start)
      fun update => AllTraced site (Node.update update).children := by
  unfold update
  refine .skip fun _ => .skip fun conflict => .skip fun ⟨schema, table⟩ => .skip fun aliasName => ?_
  refine .skip fun _ => ?_
  refine .bind (assignments_traced traced) fun assignments first => ?_
  refine .bind (.afterKeyword traced.tableRef) fun source second => ?_
  refine .bind (filter_traced traced) fun filter third => ?_
  refine .bind (optionalReturning_traced traced) fun returning fourth => ?_
  refine .skip fun span => ?_
  exact .of_pure (by simpa [Node.children] using ⟨tables, first, second, third, fourth⟩)

/-- The children of a `DELETE` are traced, if the common tables before it are. -/
lemma delete_traced :
    Gives site (delete (rules limit depth) commonTables start)
      fun delete => AllTraced site (Node.delete delete).children := by
  unfold delete
  refine .skip fun _ => .skip fun ⟨schema, table⟩ => .skip fun aliasName => ?_
  refine .bind (filter_traced traced) fun filter first => ?_
  refine .bind (optionalReturning_traced traced) fun returning second => ?_
  refine .skip fun span => ?_
  exact .of_pure (by simpa [Node.children] using ⟨tables, first, second⟩)

/-! ## Statements that read or change rows -/

/-- The children of a statement about rows are traced where the statement ends, if the common tables
before it are. -/
lemma dataStatementAfter_traced (expected : String) :
    GivesBefore site AtStatementEnd
      (dataStatementAfter (rules limit depth) commonTables start expected)
      fun statement => AllTraced site statement.node.children := by
  unfold dataStatementAfter
  refine .skip fun view => .ite ?_ (.ite ?_ (.ite ?_ (.ite ?_ (.of_unexpected _))))
  · exact .last ((queryAfter_traced traced start tables).before
      fun _ => pastOperators_of_statementEnd) fun query first => first
  · exact .last (insert_traced traced tables start) fun insert first => first
  · exact .bind (update_traced traced tables start) fun update first => .of_pure first
  · exact .bind (delete_traced traced tables start) fun delete first => .of_pure first

omit tables in
/-- **All nodes of a statement that reads or changes rows are traced.** -/
lemma dataStatement_traced (expected : String) :
    GivesBefore site AtStatementEnd (dataStatement (rules limit depth) expected)
      fun statement => statement.node.Traced site := by
  have below : GivesBefore site AtStatementEnd (dataStatement (rules limit depth) expected)
      fun statement => AllTraced site statement.node.children := by
    unfold dataStatement
    refine .skip fun start => .skip fun isWith => .ite ?_ ?_
    · exact .bind (withClause_traced traced) fun clause first =>
        dataStatementAfter_traced traced (by simpa using first) start _
    · exact dataStatementAfter_traced traced (by simp) start _
  intro cursor statement stop here run ends
  have children := below here run ends
  have made : MadeBefore site AtStatementEnd (dataStatement · expected) statement :=
    ⟨limit, depth, cursor, stop, here, run, ends⟩
  cases statement with
  | select statement => exact traced_iff.mpr ⟨.select made, children⟩
  | insert statement => exact traced_iff.mpr ⟨.insert made, children⟩
  | update statement => exact traced_iff.mpr ⟨.update made, children⟩
  | delete statement => exact traced_iff.mpr ⟨.delete made, children⟩

end SqlTree.Grammar
