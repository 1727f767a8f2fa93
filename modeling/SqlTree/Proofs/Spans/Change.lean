import SqlTree.Grammar.Change
import SqlTree.Proofs.Spans.Query

set_option autoImplicit false

/-!
# Where changes of rows are placed

The parsers of insertions, updates and deletions read nodes that are placed between the ends of
their runs, and from the start of their common tables.

## Main results

* `SqlTree.Grammar.indexedColumns_lays`, `SqlTree.Grammar.assignments_lays` — parts of several
  statements.
* `SqlTree.Grammar.dataStatement_places` — statements that read or change rows.
-/

namespace SqlTree.Grammar

open SqlTree.Parser

variable {tape : Tape} {rules : Rules} (laid : rules.Laid tape)

include laid

/-! ## Parts of several statements -/

/-- A column of an index is placed. -/
lemma indexedColumn_places : (indexedColumn rules).Places tape .indexedColumn := by
  unfold indexedColumn
  intro i
  refine (laid.expr i).bind fun expr _ _ placed => ?_
  refine .skip fun direction _ _ => ?_
  have lt := placed.lt
  exact .node placed.starts (by omega) rfl (placed.row.mono (Nat.le_refl _) (by omega))

/-- The columns of an index are laid out in a row. -/
lemma indexedColumns_lays : (indexedColumns rules).Lays tape (Node.each .indexedColumn) :=
  (indexedColumn_places laid).commaSeparated _

/-- An assignment is placed. -/
lemma assignment_places : (assignment rules).Places tape .assignment := by
  unfold assignment
  intro i
  refine .here fun start starts => ?_
  refine .sees fun isLeftParen => .ite ?_ ?_
  · refine .skip fun columns _ _ => ?_
    refine .expectSymbol fun _ _ => ?_
    refine (laid.expr _).bind fun _ _ _ value => ?_
    exact .node starts (by omega) rfl (value.row.mono (by omega) (Nat.le_refl _))
  · refine .identifier fun name => ?_
    refine .expectSymbol fun columns _ => ?_
    refine (laid.expr _).bind fun _ _ _ value => ?_
    exact .node starts (by omega) rfl (value.row.mono (by omega) (Nat.le_refl _))

/-- The assignments of a statement are laid out in a row. -/
lemma assignments_lays : (assignments rules).Lays tape (Node.each .assignment) :=
  (assignment_places laid).commaSeparated _

/-- The columns after `RETURNING` are placed. -/
lemma returning_places : (returning rules).Places tape .returning := by
  unfold returning
  intro i
  refine .here fun start starts => .require ?_
  refine .advance fun _ => ?_
  refine (resultColumns_lays laid _).bind fun _ _ _ columns => ?_
  exact .node starts (by omega) rfl (columns.mono (by omega) (Nat.le_refl _))

/-- `RETURNING` is laid out, if it is there. -/
lemma optionalReturning_lays : (optionalReturning rules).Lays tape (Node.maybe .returning) :=
  (returning_places laid).whenever

/-! ## Insertions -/

/-- What is below the rows to insert is laid out. -/
lemma insertSource_lays : (insertSource rules).Lays tape Node.ofInsertSource := by
  intro i
  refine .view <| .ite ?_ <| .ite ?_ <| .ite ?_ ?_
  · exact (valuesClause_places laid i).bind fun _ _ _ clause => .of_pure clause.row
  · exact (laid.query i).bind fun _ _ _ query => .of_pure query.row
  · refine .advance fun _ => ?_
    refine .expectKeyword fun _ _ => ?_
    exact .returns .token (by omega) (.nil (by omega))
  · split
    · refine .isDrift fun drift => .ite ?_ trivial
      refine .advance fun _ => ?_
      exact .of_pure (.nil (by omega))
    · trivial

/-- The target of a conflict is placed. -/
lemma conflictTarget_places : (conflictTarget rules).Places tape .conflictTarget := by
  unfold conflictTarget
  intro i
  refine .here fun start starts => .parenthesized ?_
  refine (indexedColumns_lays laid _).mono fun _ _ _ columns => ?_
  refine (laid.expr.afterKeyword _).bind fun _ _ _ filter => ?_
  exact .node starts (by omega) rfl
    ((columns.append (filter.mono (by omega) (Nat.le_refl _))).mono (by omega) (Nat.le_refl _))

/-- What is below the action on a conflict is laid out. -/
lemma upsertAction_lays : (upsertAction rules).Lays tape Node.ofUpsertAction := by
  unfold upsertAction
  intro i
  refine .expectKeyword fun _ _ => ?_
  refine .ifKeyword (.of_pure (.nil (by omega))) ?_
  refine .skip fun _ _ _ => ?_
  refine (assignments_lays laid _).bind fun _ _ _ assignments => ?_
  refine (laid.expr.afterKeyword _).bind fun _ _ _ filter => ?_
  exact .of_pure ((assignments.append filter).mono (by omega) (Nat.le_refl _))

/-- A clause about conflicts is placed. -/
lemma upsert_places : (upsert rules).Places tape .upsert := by
  unfold upsert
  intro i
  refine .here fun start starts => .require ?_
  refine .expectKeywords fun _ _ => ?_
  refine ((conflictTarget_places laid).whenever _).bind fun _ _ _ target => ?_
  refine (upsertAction_lays laid _).bind fun _ _ _ action => ?_
  exact .node starts (by omega) rfl
    ((target.append action).mono (by omega) (Nat.le_refl _))

/-! ## Statements after their common tables -/

variable {commonTables : Option WithClause} {start : Span} {i j : Nat}
  (starts : tape.Starts i start)
  (before : Row tape.Places i j (Node.maybe .withClause commonTables))

include starts before

/-- An `INSERT` is placed from where its common tables start. -/
lemma insert_leads : (insert rules commonTables start).Leads tape j fun value k =>
    tape.Places i k (.insert value) := by
  have le := before.le
  refine .skip fun _ _ _ => ?_
  refine .expectKeyword fun _ _ => ?_
  refine .skip fun names _ _ => .skip fun aliasName _ _ => .skip fun columns _ _ => ?_
  refine (insertSource_lays laid _).bind fun _ _ _ source => ?_
  refine (Places.many _ (upsert_places laid).whenever _).bind fun _ _ _ upserts => ?_
  refine (optionalReturning_lays laid _).bind fun _ _ _ returning => ?_
  exact .node starts (by omega) rfl
    (((before.append (source.mono (by omega) (Nat.le_refl _))).append upserts).append returning)

/-- An `UPDATE` is placed from where its common tables start. -/
lemma update_leads : (update rules commonTables start).Leads tape j fun value k =>
    tape.Places i k (.update value) := by
  have le := before.le
  refine .expectKeyword fun _ _ => ?_
  refine .skip fun onConflict _ _ => .skip fun names _ _ => .skip fun aliasName _ _ => ?_
  refine .expectKeyword fun _ _ => ?_
  refine (assignments_lays laid _).bind fun _ _ _ assignments => ?_
  refine (laid.tableRef.afterKeyword _).bind fun _ _ _ source => ?_
  refine (laid.expr.afterKeyword _).bind fun _ _ _ filter => ?_
  refine (optionalReturning_lays laid _).bind fun _ _ _ returning => ?_
  exact .node starts (by omega) rfl
    ((((before.append (assignments.mono (by omega) (Nat.le_refl _))).append source).append
    filter).append returning)

/-- A `DELETE` is placed from where its common tables start. -/
lemma delete_leads : (delete rules commonTables start).Leads tape j fun value k =>
    tape.Places i k (.delete value) := by
  have le := before.le
  refine .expectKeywords fun _ _ => ?_
  refine .skip fun names _ _ => .skip fun aliasName _ _ => ?_
  refine (laid.expr.afterKeyword _).bind fun _ _ _ filter => ?_
  refine (optionalReturning_lays laid _).bind fun _ _ _ returning => ?_
  exact .node starts (by omega) rfl
    ((before.append (filter.mono (by omega) (Nat.le_refl _))).append returning)

/-- A statement about rows is placed from where its common tables start. -/
lemma dataStatementAfter_leads (expected : String) :
    (dataStatementAfter rules commonTables start expected).Leads tape j fun value k =>
      tape.Places i k value.node := by
  refine .view <| .ite ?_ <| .ite ?_ <| .ite ?_ <| .ite ?_ trivial
  · exact (queryAfter_leads laid starts before).bind fun _ _ _ placed => .of_pure placed
  · exact (insert_leads laid starts before).bind fun _ _ _ placed => .of_pure placed
  · exact (update_leads laid starts before).bind fun _ _ _ placed => .of_pure placed
  · exact (delete_leads laid starts before).bind fun _ _ _ placed => .of_pure placed

omit starts before in
/-- **Statements that read or change rows are placed between the ends of their runs.** -/
theorem dataStatement_places (expected : String) :
    (dataStatement rules expected).Places tape DataStatement.node := by
  unfold dataStatement
  intro i
  refine .here fun start starts => ?_
  refine .ifSees ?_ (dataStatementAfter_leads laid starts (.nil (Nat.le_refl _)) _)
  refine (withClause_places laid _).bind fun _ _ _ commonTables => ?_
  exact dataStatementAfter_leads laid starts commonTables.row _

end SqlTree.Grammar
