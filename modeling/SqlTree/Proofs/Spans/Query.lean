import SqlTree.Grammar.Knot
import SqlTree.Proofs.Spans.Expr

set_option autoImplicit false

/-!
# Where queries are placed

The parsers of queries and of their parts read nodes that are placed between the ends of their runs.
A join is placed from the start of the table on its left, and a query from the start of its common
tables.

## Main results

* `SqlTree.Grammar.resultColumns_lays`, `SqlTree.Grammar.joinedTables_places` — columns and tables.
* `SqlTree.Grammar.limit_places` — limits, where an offset may stand before the count.
* `SqlTree.Grammar.query_places` — queries.
* `SqlTree.Grammar.rules_laid` — all the rules together.
-/

namespace SqlTree.Grammar

open SqlTree.Parser

variable {tape : Tape} {rules : Rules} (laid : rules.Laid tape)

include laid

/-! ## Common tables -/

/-- A common table is placed. -/
lemma commonTable_places : (commonTable rules).Places tape .commonTable := by
  unfold commonTable
  intro i
  refine .here fun start starts => ?_
  refine .identifier fun name => ?_
  refine .skip fun columns _ _ => ?_
  refine .expectKeyword fun _ _ => ?_
  refine .skip fun materialized _ _ => ?_
  refine (laid.query.parenthesized _).bind fun _ _ _ query => ?_
  exact .node starts (by omega) rfl (query.mono (by omega) (Nat.le_refl _))

/-- `WITH` is placed, and its tables in order. -/
lemma withClause_places : (withClause rules).Places tape .withClause := by
  unfold withClause
  intro i
  refine .expectKeyword fun start starts => ?_
  refine .skip fun recursive _ _ => ?_
  refine ((commonTable_places laid).commaSeparated _ _).bind fun _ _ _ tables => ?_
  exact .node starts (by omega) rfl (tables.mono (by omega) (Nat.le_refl _))

/-! ## Result columns -/

/-- A nested query is placed. -/
lemma nestedQuery_places : (nestedQuery rules).Places tape .resultColumn := by
  unfold nestedQuery
  intro i
  refine .here fun start starts => ?_
  refine .advance fun _ => ?_
  refine (laid.query.parenthesized _).bind fun _ _ _ query => ?_
  refine .skip fun aliasName _ _ => ?_
  exact .node starts (by omega) rfl (query.mono (by omega) (by omega))

/-- A result column that is an expression is placed. -/
lemma expressionColumn_places : (expressionColumn rules).Places tape .resultColumn := by
  intro i
  refine .here fun start starts => ?_
  refine (laid.expr i).bind fun expr _ _ placed => ?_
  refine .skip fun mapping _ _ => ?_
  have lt := placed.lt
  obtain _ | code := mapping
  · refine .skip fun _ _ _ => .skip fun code _ _ => ?_
    exact .node starts (by omega) rfl (placed.row.mono (Nat.le_refl _) (by omega))
  · exact .skip fun _ _ _ => .node starts (by omega) rfl
      (placed.row.mono (Nat.le_refl _) (by omega))

omit laid in
/-- The name before a star takes tokens. -/
lemma tableOfStar_leads (i : Nat) : tableOfStar.Leads tape i fun _ j => i < j := by
  unfold tableOfStar
  refine .identifier fun table => ?_
  refine .skip fun _ _ _ => .skip fun _ _ _ => ?_
  exact .of_pure (by omega)

/-- A result column is placed, whichever kind it is. -/
lemma resultColumn_places : (resultColumn rules).Places tape .resultColumn := by
  intro i
  refine .view (.ite ?_ <| .ite ?_ <| .ite ?_ <| .ite ?_ ?_)
  · exact .advance fun _ => .of_pure <| .of_row (Nat.lt_succ_self _) rfl (.nil (Nat.le_succ _))
  · exact (tableOfStar_leads i).bind fun _ _ _ lt => .node .token lt rfl (.nil (by omega))
  · exact (tableOfStar_leads i).bind fun _ _ _ lt => .node .token lt rfl (.nil (by omega))
  · exact .isDrift fun _ => .ite (nestedQuery_places laid i) (expressionColumn_places laid i)
  · exact expressionColumn_places laid i

/-- Result columns are laid out in order. -/
lemma resultColumns_lays : (resultColumns rules).Lays tape (Node.each .resultColumn) :=
  (resultColumn_places laid).commaSeparated _

/-! ## Tables -/

omit laid in
/-- A name that may be qualified takes tokens. -/
lemma qualifiedName_leads (i : Nat) : qualifiedName.Leads tape i fun _ j => i < j := by
  unfold qualifiedName
  refine .identifier fun first => ?_
  refine .ifSymbol ?_ (.of_pure (by omega))
  exact .identifier fun _ => .of_pure (by omega)

/-- A single table is placed. -/
lemma singleTable_places : (singleTable rules).Places tape .tableRef := by
  intro i
  refine .here fun _ starts => .ifSymbol (.ifSees ?_ ?_) ?_
  · refine (laid.query _).bind fun _ _ _ query => ?_
    refine .expectSymbol fun _ _ => ?_
    refine .skip fun aliasName _ _ => ?_
    exact .node starts (by omega) rfl (query.row.mono (by omega) (by omega))
  · refine (laid.tableRef _).bind fun _ _ _ inner => ?_
    refine .expectSymbol fun _ _ => ?_
    exact .node starts (by omega) rfl (inner.row.mono (by omega) (by omega))
  · refine (qualifiedName_leads i).bind fun ⟨schema, name⟩ _ _ lt => .ifSymbol ?_ ?_
    · refine (laid.exprs.wheneverList _).bind fun _ _ _ arguments => ?_
      refine .expectSymbol fun _ _ => ?_
      refine .skip fun aliasName _ _ => ?_
      exact .node starts (by omega) rfl (arguments.mono (by omega) (by omega))
    · refine .skip fun aliasName _ _ => .skip fun indexing _ _ => ?_
      exact .node starts (by omega) rfl (.nil (by omega))

/-- The constraint of a join lays out its expression. -/
lemma optionalJoinConstraint_lays : (optionalJoinConstraint rules).Lays tape
    fun constraint => constraint.toList.flatMap Node.ofJoinConstraint := by
  unfold optionalJoinConstraint
  intro i
  refine .ifKeyword ?_ ?_
  · refine (laid.expr _).bind fun expr _ _ placed => ?_
    exact .of_pure (placed.row.mono (Nat.le_succ _) (Nat.le_refl _))
  · refine .ifKeyword ?_ (.of_pure (.nil (Nat.le_refl _)))
    exact .skip fun _ _ _ => .of_pure (.nil (by omega))

omit laid in
/-- Where no join follows, nothing is taken. -/
lemma optionalJoinOperator_leads (i : Nat) : optionalJoinOperator.Leads tape i fun join j =>
    join = none → j = i := by
  unfold optionalJoinOperator
  refine .ifSymbol (.of_pure (by simp)) ?_
  refine .ifSees ?_ (.of_pure fun _ => rfl)
  refine .skip fun natural _ _ => .skip fun kind _ _ => ?_
  refine .expectKeyword fun _ _ => ?_
  exact .of_pure (by simp)

/-- A turn of the loop over joins places the larger table reference, from its first table on, or
leaves the one that was placed. -/
lemma nextJoin_leads {left : TableRef} {i j : Nat} (placed : tape.Places i j (.tableRef left)) :
    (nextJoin rules left).Leads tape j fun next k =>
      next.elim (tape.Places i k (.tableRef left)) (tape.Places i k <| .tableRef ·) := by
  refine .here fun start starts => ?_
  refine (optionalJoinOperator_leads j).bind fun join _ _ stays => ?_
  obtain _ | ⟨natural, kind⟩ := join
  · rw [stays rfl]
    exact .of_pure placed
  · refine (singleTable_places laid _).bind fun table _ _ first => ?_
    refine (optionalJoinConstraint_lays laid _).bind fun constraint k _ common => ?_
    have lt := placed.lt
    have lt' := first.lt
    have join : tape.Places j k (.join ⟨natural, kind, table, constraint, tape.extent j k⟩) :=
      .of_row (by omega) rfl ((first.row.append common).mono (by omega) (Nat.le_refl _))
    refine .returns starts (by omega) <|
      .of_row (by omega) ?_ (placed.row.append join.row)
    change (Node.tableRef left).span.merge (tape.extent j k) = _
    rw [placed.span, Tape.merge_extent (by omega) (by omega)]

/-- **Table references are placed**, from their first table to their last one. -/
theorem joinedTables_places : (joinedTables rules).Places tape .tableRef := fun i =>
  (singleTable_places laid i).bind fun _ _ _ first =>
    .iterate (fun value j => tape.Places i j (.tableRef value)) _
      (fun _ _ placed => nextJoin_leads laid placed) first

/-! ## Members of a query -/

/-- A named window is placed. -/
lemma namedWindow_places : (namedWindow rules).Places tape .namedWindow := by
  unfold namedWindow
  intro i
  refine .here fun start starts => ?_
  refine .identifier fun name => ?_
  refine .expectKeyword fun _ _ => ?_
  refine (windowDefinition_places laid _).bind fun definition _ _ window => ?_
  exact .node starts (by omega) rfl (window.row.mono (by omega) (Nat.le_refl _))

/-- Named windows are laid out in order. -/
lemma namedWindows_lays : (namedWindows rules).Lays tape (Node.each .namedWindow) := by
  unfold namedWindows
  intro i
  refine .here fun start _ => .require ?_
  refine .advance fun _ => ?_
  exact ((namedWindow_places laid).commaSeparated _ _).mono fun _ _ _ row => row.mono
    (Nat.le_succ _) (Nat.le_refl _)

/-- `SELECT` is placed, and its clauses in order. -/
lemma selectClause_places : (selectClause rules).Places tape .selectClause := by
  unfold selectClause
  intro i
  refine .expectKeyword fun start starts => ?_
  refine .skip fun distinct _ _ => ?_
  refine (resultColumns_lays laid _).bind fun _ _ _ columns => ?_
  refine (laid.tableRef.afterKeyword _).bind fun _ _ _ source => ?_
  refine (laid.expr.afterKeyword _).bind fun _ _ _ filter => ?_
  refine (laid.exprs.afterExpected.afterKeywordList _).bind fun groupBy _ _ groups => ?_
  refine (laid.expr.afterKeyword _).bind fun _ _ _ having => ?_
  refine ((namedWindows_lays laid).wheneverList _).bind fun _ _ _ windows => ?_
  exact .node starts (by omega) rfl
    ((((((columns.append source).append filter).append groups).append having).append windows).mono
    (by omega) (Nat.le_refl _))

/-- `VALUES` is placed, and its rows in order. -/
lemma valuesClause_places : (valuesClause rules).Places tape .valuesClause := by
  unfold valuesClause
  intro i
  refine .expectKeyword fun start starts => ?_
  refine (laid.exprs.parenthesized.commaSeparated _ _).bind fun _ _ _ rows => ?_
  exact .node starts (by omega) rfl (rows.mono (by omega) (Nat.le_refl _))

/-- A member of a query is placed. -/
lemma queryCore_places : (queryCore rules).Places tape QueryCore.node := by
  intro i
  refine .current ?_
  split
  · exact (selectClause_places laid i).bind fun _ _ _ clause => .of_pure clause
  · exact (valuesClause_places laid i).bind fun _ _ _ clause => .of_pure clause
  · trivial

/-- A turn of the loop over the members of a query lays out its node, if it reads one. -/
lemma nextCompound_lays : (nextCompound rules).Lays tape (Node.maybe .compoundPart) := by
  intro i
  refine .here fun start starts => ?_
  refine .skip fun operator _ _ => ?_
  obtain _ | operator := operator
  · exact .of_pure (.nil (by omega))
  · refine (queryCore_places laid _).bind fun core k _ placed => ?_
    have lt := placed.lt
    exact .returns starts (by omega) <| Tape.Places.row <|
      .of_row (by omega) rfl (placed.row.mono (by omega) (Nat.le_refl _))

/-! ## Limits -/

/-- The expressions of a limit are placed, in the order in which they are written: a limit with a
comma has its offset first. -/
lemma limitExpressions_leads (i : Nat) : (limitExpressions rules).Leads tape i fun kind j =>
    ∃ row, (∀ span, (Node.limit ⟨kind, span⟩).WrittenAs row) ∧ Row tape.Places i j row := by
  unfold limitExpressions
  refine (laid.expr i).bind fun _ _ _ first => .ifKeyword ?_ (.ifSymbol ?_ ?_)
  · refine (laid.expr _).bind fun _ _ _ offset => .of_pure ?_
    exact ⟨_, fun _ => .listed _, first.row.append (offset.row.mono (by omega) (Nat.le_refl _))⟩
  · -- before a comma stands the offset, and the count behind it
    refine (laid.expr _).bind fun _ _ _ count => .of_pure ?_
    exact ⟨_, .offsetFirst _ _, first.row.append (count.row.mono (by omega) (Nat.le_refl _))⟩
  · exact .of_pure ⟨_, fun _ => .listed _, first.row⟩

/-- A limit is placed. -/
lemma limit_places : (limit rules).Places tape .limit := by
  intro i
  have expressions {start : Span} (starts : tape.Starts i start) : (do
      let kind ← limitExpressions rules
      return ⟨kind, ← spanFrom start⟩ : Parser Limit).Leads tape (i + 1) fun value j =>
        tape.Places i j (.limit value) :=
    (limitExpressions_leads laid _).bind fun _ _ _ ⟨_, written, row⟩ =>
      .returns starts (by omega)
        (.node (by omega) rfl (written _) (row.mono (by omega) (Nat.le_refl _)))
  refine .expectKeyword fun _ starts => .view ?_
  split
  · refine .isDrift fun drift => .ite ?_ (expressions starts)
    refine .advance fun _ => ?_
    exact .node starts (by omega) rfl (.nil (by omega))
  · exact expressions starts

/-! ## Queries -/

/-- A query is placed after its common tables, from their start on. -/
lemma queryAfter_leads {commonTables : Option WithClause} {start : Span} {i j : Nat}
    (starts : tape.Starts i start)
    (before : Row tape.Places i j (Node.maybe .withClause commonTables)) :
    (queryAfter rules commonTables start).Leads tape j fun value k =>
      tape.Places i k (.query value) := by
  refine (queryCore_places laid _).bind fun _ _ _ core => ?_
  refine (Places.many _ (nextCompound_lays laid) _).bind fun _ _ _ compounds => ?_
  refine (optionalOrderBy_lays laid _).bind fun _ _ _ order => ?_
  refine ((limit_places laid).whenever _).bind fun _ _ _ limit => ?_
  have le := before.le
  have lt := core.lt
  exact .node starts (by omega) rfl
    (((before.append (core.row.append compounds)).append order).append limit)

/-- **Queries are placed between the ends of their runs.** -/
theorem query_places : (query rules).Places tape .query := by
  unfold query
  intro i
  refine .here fun start starts => ?_
  refine ((withClause_places laid).whenever _).bind fun _ _ _ commonTables => ?_
  exact queryAfter_leads laid starts commonTables

omit laid in
/-- **The rules read nodes that are placed**, whatever bounds them. -/
theorem rules_laid (limit depth : Nat) : (Grammar.rules limit depth).Laid tape := by
  induction depth with
  | zero => exact ⟨fun _ _ => trivial, fun _ => trivial, fun _ => trivial⟩
  | succ depth laid =>
    exact ⟨expression_places laid, query_places laid, joinedTables_places laid⟩

end SqlTree.Grammar
