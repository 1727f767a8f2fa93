import SqlTree.Proofs.Gates.Expr

set_option autoImplicit false

/-!
# The gates of queries

## Main results

* `SqlTree.Grammar.query_gated`, `SqlTree.Grammar.joinedTables_gated` — queries and table references
  over gated rules use only features of the dialect.
* `SqlTree.Grammar.rules_gated` — the rules of every depth are gated.
-/

namespace SqlTree.Grammar

open SqlTree.Parser

variable {dialect : Dialect} {rules : Rules}

/-! ## Common tables -/

/-- A hint is accepted only where the dialect has the feature. -/
lemma materialization_gated :
    Ensures dialect materialization
      fun hint => hint.isSome = true → dialect.supports .materializedTables = true := by
  have checked (start : Span) (hint : Option Bool) : Ensures dialect
      (do
        if hint.isSome then
          require .materializedTables "MATERIALIZED hints" (← spanFrom start)
        return hint)
      fun hint => hint.isSome = true → dialect.supports .materializedTables = true := by
    refine .ite (fun _ => ?_) fun absent => .of_pure fun some => absurd some absent
    refine .skip fun span => ?_
    refine .require fun has => ?_
    exact .of_pure fun _ => has
  unfold materialization
  refine .skip fun start => .skip fun not => .skip fun kept => ?_
  refine .ite (fun _ => ?_) fun _ => .ite (fun _ => ?_) fun _ => ?_
  · refine .skip fun _ => .skip fun _ => ?_
    exact checked start (some false)
  · exact checked start (some true)
  · exact checked start none

section

variable (gated : rules.Gated dialect)

include gated

/-- A common table reads no feature that the dialect lacks: a hint about it is read after the demand
for its feature. -/
lemma commonTable_gated :
    Ensures dialect (commonTable rules) fun table => dialect.Reads table.features := by
  unfold commonTable
  refine .skip fun start => .skip fun name => .skip fun columns => .skip fun _ => ?_
  refine .bind materialization_gated fun hint has => ?_
  refine .bind (.parenthesized gated.query) fun query reads => ?_
  refine .skip fun span => .of_pure ?_
  simpa [CommonTable.features] using ⟨has, reads⟩

/-- `WITH` reads no feature that the dialect lacks. -/
lemma withClause_gated :
    Ensures dialect (withClause rules) fun clause => dialect.Reads clause.features := by
  unfold withClause
  refine .skip fun start => .skip fun recursive => ?_
  refine .bind (.commaSeparated (commonTable_gated gated) _) fun tables reads => ?_
  exact .skip fun span => .of_pure (by simpa [WithClause.features] using reads)

/-! ## Result columns -/

omit gated in
/-- A Dart converter is accepted only where the drift extensions are read. -/
lemma mappedBy_gated :
    Ensures dialect mappedBy fun _ => dialect.supports .driftExtensions = true := by
  have code (drift : dialect.supports .driftExtensions = true) :
      Ensures dialect dartCode fun _ => dialect.supports .driftExtensions = true :=
    fun _ _ _ _ _ => drift
  unfold mappedBy
  refine .skip fun here => ?_
  refine .require fun drift => ?_
  refine .skip fun _ => .skip fun _ => ?_
  exact code drift

omit gated in
/-- `MAPPED BY` is only read with the drift extensions. -/
lemma optionalMappedBy_gated :
    Ensures dialect optionalMappedBy
      fun code => code.isSome = true → dialect.supports .driftExtensions = true :=
  (Ensures.whenever mappedBy_gated).mono fun _ drift some =>
    drift _ (Option.get_mem some)

/-- A nested query reads no further feature that the dialect lacks, where it has the drift
extensions. -/
lemma nestedQuery_gated (drift : dialect.supports .driftExtensions = true) :
    Ensures dialect (nestedQuery rules) fun column => dialect.Reads column.features := by
  unfold nestedQuery
  refine .skip fun start => .skip fun _ => ?_
  refine .bind (.parenthesized gated.query) fun query reads => ?_
  refine .skip fun aliasName => ?_
  exact .skip fun span => .of_pure (by simpa [ResultColumn.features] using ⟨drift, reads⟩)

/-- A result column that is an expression reads no feature that the dialect lacks, wherever its
`MAPPED BY` stands. -/
lemma expressionColumn_gated :
    Ensures dialect (expressionColumn rules) fun column => dialect.Reads column.features := by
  unfold expressionColumn
  refine .skip fun start => ?_
  refine .bind (expr_gated gated) fun expr reads => ?_
  refine .bind optionalMappedBy_gated fun code has => ?_
  split
  · refine .skip fun aliasName => .skip fun span => ?_
    exact .of_pure (by simpa [ResultColumn.features] using ⟨reads, has rfl⟩)
  · refine .skip fun aliasName => ?_
    refine .bind optionalMappedBy_gated fun code has => ?_
    exact .skip fun span => .of_pure (by simpa [ResultColumn.features] using ⟨reads, has⟩)

/-- Two asterisks are one symbol only where the drift extensions are read, so nothing else guards
the columns of a table as one nested value. -/
lemma resultColumn_gated :
    Ensures dialect (resultColumn rules) fun column => dialect.Reads column.features := by
  unfold resultColumn
  refine .view fun view fits => .ite (fun _ => ?_) fun _ => .ite (fun _ => ?_) fun _ =>
    .ite (fun nested => ?_) fun _ => .ite (fun _ => ?_) fun _ => ?_
  · exact .skip fun _ => .of_pure (by simp [ResultColumn.features])
  · refine .skip fun table => .skip fun span => ?_
    exact .of_pure (by simp [ResultColumn.features])
  · have doubled : view.third.isSymbol .doubleStar = true := by
      simp only [atTableStar, Bool.and_eq_true] at nested
      exact nested.2
    have drift : dialect.supports .driftExtensions = true :=
      fits (Token.kind_of_isSymbol doubled)
    refine .skip fun table => .skip fun span => ?_
    exact .of_pure (by simpa [ResultColumn.features] using drift)
  · exact .isDrift (.ite (fun drift => nestedQuery_gated gated drift)
      fun _ => expressionColumn_gated gated)
  · exact expressionColumn_gated gated

/-- Result columns read no feature that the dialect lacks. -/
lemma resultColumns_gated :
    Ensures dialect (resultColumns rules)
      fun columns => ∀ column ∈ columns, dialect.Reads column.features :=
  .commaSeparated (resultColumn_gated gated) _

/-! ## Tables -/

/-- A single table reads no feature that the dialect lacks. -/
lemma singleTable_gated :
    Ensures dialect (singleTable rules) fun table => dialect.Reads table.features := by
  unfold singleTable
  refine .skip fun start => .skip fun paren => .ite (fun _ => ?_) fun _ => ?_
  · refine .skip fun isQuery => .ite (fun _ => ?_) fun _ => ?_
    · refine .bind gated.query fun query reads => ?_
      refine .skip fun _ => .skip fun aliasName => ?_
      exact .skip fun span => .of_pure (by simpa [TableRef.features] using reads)
    · refine .bind gated.tableRef fun inner reads => ?_
      refine .skip fun _ => .skip fun span => ?_
      exact .of_pure (by simpa [TableRef.features] using reads)
  · refine .skip fun name => .skip fun paren => .ite (fun _ => ?_) fun _ => ?_
    · refine .bind (.whenever (exprs_gated gated)) fun arguments reads => ?_
      refine .skip fun _ => ?_
      refine .skip fun aliasName => .skip fun span => .of_pure ?_
      cases arguments <;> simp_all [TableRef.features]
    · refine .skip fun aliasName => .skip fun indexing => .skip fun span => ?_
      exact .of_pure (by simp [TableRef.features])

omit gated in
/-- Joins that keep all rows of the right table are accepted only where the dialect has them. -/
lemma joinKind_gated : Ensures dialect joinKind fun kind => dialect.Reads kind.features := by
  unfold joinKind
  refine .skip fun token => ?_
  split
  · exact .of_pure (by simp [JoinKind.features])
  · exact .skip fun _ => .of_pure (by simp [JoinKind.features])
  · exact .skip fun _ => .of_pure (by simp [JoinKind.features])
  · refine .skip fun _ => .skip fun _ => ?_
    exact .of_pure (by simp [JoinKind.features])
  iterate 2
    refine .require fun has => ?_
    refine .skip fun _ => .skip fun _ => ?_
    exact .of_pure (by simpa [JoinKind.features] using has)
  exact .of_unexpected _

omit gated in
/-- A join that only some dialects have is read after the demand for its feature. -/
lemma optionalJoinOperator_gated :
    Ensures dialect optionalJoinOperator
      fun operator => ∀ part ∈ operator, dialect.Reads part.2.features := by
  unfold optionalJoinOperator
  refine .skip fun comma => .ite (fun _ => ?_) fun _ => .skip fun word => .ite (fun _ => ?_)
    fun _ => .of_pure (by simp)
  · exact .of_pure (by simp [JoinKind.features])
  · refine .skip fun natural => ?_
    refine .bind joinKind_gated fun kind reads => ?_
    refine .skip fun _ => ?_
    exact .of_pure (by simpa using reads)

/-- The constraint of a join reads no feature that the dialect lacks. -/
lemma optionalJoinConstraint_gated :
    Ensures dialect (optionalJoinConstraint rules)
      fun constraint => dialect.Reads (JoinConstraint.optionFeatures constraint) := by
  unfold optionalJoinConstraint
  refine .skip fun on => .ite (fun _ => ?_) fun _ => .skip fun using_ => .ite (fun _ => ?_)
    fun _ => .of_pure (by simp [JoinConstraint.optionFeatures])
  · exact .bind (expr_gated gated) fun expr reads =>
      .of_pure (by simpa [JoinConstraint.optionFeatures] using reads)
  · exact .skip fun columns => .of_pure (by simp [JoinConstraint.optionFeatures])

/-- A turn of the loop over joins adds no feature that the dialect lacks. -/
lemma nextJoin_gated {left : TableRef} (leftReads : dialect.Reads left.features) :
    Ensures dialect (nextJoin rules left)
      fun next => ∀ table ∈ next, dialect.Reads table.features := by
  unfold nextJoin
  refine .skip fun start => ?_
  refine .bind optionalJoinOperator_gated fun operator first => ?_
  split
  · refine .bind (singleTable_gated gated) fun table second => ?_
    refine .bind (optionalJoinConstraint_gated gated) fun constraint third => ?_
    refine .skip fun span => .of_pure ?_
    simpa [TableRef.features, Join.features] using ⟨leftReads, first _ rfl, second, third⟩
  · exact .of_pure (by simp)

/-- **Table references read no feature that the dialect lacks.** -/
lemma joinedTables_gated :
    Ensures dialect (joinedTables rules) fun table => dialect.Reads table.features := by
  unfold joinedTables
  exact .bind (singleTable_gated gated) fun first reads =>
    .iterate (fun left reads => nextJoin_gated gated reads) _ reads

/-! ## Members of a query -/

/-- A named window reads no feature that the dialect lacks, where it has window functions. -/
lemma namedWindow_gated (has : dialect.supports .windowFunctions = true) :
    Ensures dialect (namedWindow rules) fun window => dialect.Reads window.features := by
  unfold namedWindow
  refine .skip fun start => .skip fun name => .skip fun _ => ?_
  refine .bind (windowDefinition_gated gated) fun definition reads => ?_
  refine .skip fun span => ?_
  exact .of_pure (by simpa [NamedWindow.features] using ⟨has, reads⟩)

/-- Named windows are read after the demand for window functions. -/
lemma namedWindows_gated :
    Ensures dialect (namedWindows rules)
      fun windows => ∀ window ∈ windows, dialect.Reads window.features := by
  unfold namedWindows
  refine .skip fun here => ?_
  refine .require fun has => ?_
  refine .skip fun _ => ?_
  exact .commaSeparated (namedWindow_gated gated has) _

/-- `SELECT` reads no feature that the dialect lacks. -/
lemma selectClause_gated :
    Ensures dialect (selectClause rules) fun clause => dialect.Reads clause.features := by
  have groups : Ensures dialect
      (afterKeyword .GROUP do let _ ← expectKeyword .BY; rules.exprs)
      fun groups => ∀ exprs ∈ groups, ∀ expr ∈ exprs, dialect.Reads expr.features :=
    .afterKeyword (.skip fun _ => exprs_gated gated)
  unfold selectClause
  refine .skip fun start => .skip fun distinct => ?_
  refine .bind (resultColumns_gated gated) fun columns first => ?_
  refine .bind (.afterKeyword gated.tableRef) fun source second => ?_
  refine .bind (.afterKeyword (expr_gated gated)) fun filter third => ?_
  refine .bind groups fun groupBy fourth => ?_
  refine .bind (.afterKeyword (expr_gated gated)) fun having fifth => ?_
  refine .bind (.whenever (namedWindows_gated gated)) fun windows sixth => ?_
  refine .skip fun span => .of_pure ?_
  cases groupBy <;> cases windows <;> simp_all [SelectClause.features]

/-- `VALUES` reads no feature that the dialect lacks. -/
lemma valuesClause_gated :
    Ensures dialect (valuesClause rules) fun clause => dialect.Reads clause.features := by
  unfold valuesClause
  refine .skip fun start => ?_
  refine .bind (.commaSeparated (.parenthesized (exprs_gated gated)) _) fun rows reads => ?_
  exact .skip fun span => .of_pure (by simpa [ValuesClause.features] using reads)

/-- A member of a query reads no feature that the dialect lacks. -/
lemma queryCore_gated :
    Ensures dialect (queryCore rules) fun core => dialect.Reads core.features := by
  unfold queryCore
  refine .skip fun token => ?_
  split
  · exact .bind (selectClause_gated gated) fun clause reads =>
      .of_pure (by simpa [QueryCore.features] using reads)
  · exact .bind (valuesClause_gated gated) fun clause reads =>
      .of_pure (by simpa [QueryCore.features] using reads)
  · exact .of_unexpected _

/-- A turn of the loop over the members of a query reads no feature that the dialect lacks. -/
lemma nextCompound_gated :
    Ensures dialect (nextCompound rules)
      fun part => ∀ member ∈ part, dialect.Reads member.features := by
  unfold nextCompound
  refine .skip fun start => .skip fun operator => ?_
  split
  · refine .bind (queryCore_gated gated) fun core reads => ?_
    refine .skip fun span => ?_
    exact .of_pure (by simpa [CompoundPart.features] using reads)
  · exact .of_pure (by simp)

/-! ## Limits -/

/-- The expressions of a limit read no feature that the dialect lacks. -/
lemma limitExpressions_gated :
    Ensures dialect (limitExpressions rules) fun kind => dialect.Reads kind.features := by
  unfold limitExpressions
  refine .bind (expr_gated gated) fun first reads => ?_
  refine .skip fun offset => ?_
  refine .ite (fun _ => ?_) fun _ => .skip fun comma => .ite (fun _ => ?_) fun _ => ?_
  · exact .bind (expr_gated gated) fun second also =>
      .of_pure (by simpa [LimitKind.features] using ⟨reads, also⟩)
  · exact .bind (expr_gated gated) fun second also =>
      .of_pure (by simpa [LimitKind.features] using ⟨also, reads⟩)
  · exact .of_pure (by simpa [LimitKind.features] using reads)

/-- A placeholder in place of a limit is only read with the drift extensions. -/
lemma limit_gated : Ensures dialect (limit rules) fun limit => dialect.Reads limit.features := by
  have expressions (start : Span) : Ensures dialect
      (do
        let kind ← limitExpressions rules
        return ⟨kind, ← spanFrom start⟩)
      fun limit : Limit => dialect.Reads limit.features := by
    refine .bind (limitExpressions_gated gated) fun kind reads => ?_
    refine .skip fun span => ?_
    exact .of_pure (by simpa [Limit.features] using reads)
  unfold limit
  refine .skip fun start => .skip fun view => ?_
  split
  · refine .isDrift (.ite (fun drift => ?_) fun _ => expressions start)
    refine .skip fun _ => .skip fun span => ?_
    exact .of_pure (by simpa [Limit.features, LimitKind.features] using drift)
  · exact expressions start

/-! ## Queries -/

/-- A query reads no feature that the dialect lacks, if its common tables do not. -/
lemma queryAfter_gated {commonTables : Option WithClause} (start : Span)
    (tables : ∀ clause ∈ commonTables, dialect.Reads clause.features) :
    Ensures dialect (queryAfter rules commonTables start)
      fun query => dialect.Reads query.features := by
  unfold queryAfter
  refine .bind (queryCore_gated gated) fun core first => ?_
  refine .bind (.many (nextCompound_gated gated) _) fun compounds second => ?_
  refine .bind (optionalOrderBy_gated gated) fun order third => ?_
  refine .bind (.whenever (limit_gated gated)) fun limit fourth => ?_
  refine .skip fun span => .of_pure ?_
  simpa [Query.features] using ⟨tables, first, second, third, fourth⟩

/-- **Queries read no feature that the dialect lacks.** -/
lemma query_gated : Ensures dialect (query rules) fun query => dialect.Reads query.features := by
  unfold query
  refine .skip fun start => ?_
  refine .bind (.whenever (withClause_gated gated)) fun commonTables tables => ?_
  exact queryAfter_gated gated start tables

end

/-- **The rules of every depth are gated**, since the rules of each depth are built from those
below. -/
lemma rules_gated (dialect : Dialect) (limit depth : Nat) :
    (Grammar.rules limit depth).Gated dialect := by
  induction depth with
  | zero => exact ⟨fun _ => .of_exhausted, .of_exhausted, .of_exhausted⟩
  | succ depth ih => exact ⟨expression_gated ih, query_gated ih, joinedTables_gated ih⟩

end SqlTree.Grammar
