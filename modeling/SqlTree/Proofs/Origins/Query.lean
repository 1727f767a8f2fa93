import SqlTree.Proofs.Origins.Expr

set_option autoImplicit false

/-!
# Where the parts of queries come from

## Main results

* `SqlTree.Grammar.rules_traced` — all nodes of whatever the rules accept are traced.
-/

namespace SqlTree.Grammar

open SqlTree.Parser SqlTree.Node

variable {site : Site} {depth : Nat} {bound : Nat}
  (traced : (rules bound depth).Traced site)

include traced

/-! ## Common tables -/

/-- A common table is traced. Its query ends before the closing parenthesis. -/
lemma commonTable_traced :
    Gives site (commonTable (rules bound depth))
      fun table => (Node.commonTable table).Traced site := by
  refine .own commonTable .commonTable ?_
  unfold commonTable
  refine .skip fun start => .skip fun name => .skip fun columns => .skip fun _ => ?_
  refine .skip fun hint => ?_
  refine .bind (.parenthesized traced.query fun _ => done_of_rightParen) fun query first => ?_
  exact .skip fun span => .of_pure (by simpa [Node.children] using first)

/-- The common tables of a query are traced. -/
lemma withClause_traced :
    Gives site (withClause (rules bound depth))
      fun clause => (Node.withClause clause).Traced site := by
  refine .own withClause .withClause ?_
  unfold withClause
  refine .skip fun start => .skip fun recursive => ?_
  refine .bind (.commaSeparated (commonTable_traced traced) _) fun tables first => ?_
  exact .skip fun span => .of_pure (by simpa [Node.children] using first)

/-! ## Result columns -/

/-- The children of a nested query are traced. The query ends before its closing parenthesis. -/
lemma nestedQuery_traced :
    Gives site (nestedQuery (rules bound depth))
      fun column => AllTraced site (Node.resultColumn column).children := by
  unfold nestedQuery
  refine .skip fun start => .skip fun _ => ?_
  refine .bind (.parenthesized traced.query fun _ => done_of_rightParen) fun query first => ?_
  refine .skip fun aliasName => .skip fun span => ?_
  exact .of_pure (by simpa [Node.children, ofResultColumn] using first)

/-- The children of a column made by an expression are traced. -/
lemma expressionColumn_traced :
    Gives site (expressionColumn (rules bound depth))
      fun column => AllTraced site (Node.resultColumn column).children := by
  unfold expressionColumn
  refine .skip fun start => ?_
  refine .bind (expr_traced traced) fun expr first => ?_
  refine .skip fun code => ?_
  split
  · refine .skip fun aliasName => .skip fun span => ?_
    exact .of_pure (by simpa [Node.children, ofResultColumn] using first)
  · refine .skip fun aliasName => .skip fun code => .skip fun span => ?_
    exact .of_pure (by simpa [Node.children, ofResultColumn] using first)

/-- A result column is traced: it is `*`, a nested query or an expression. -/
lemma resultColumn_traced :
    Gives site (resultColumn (rules bound depth))
      fun column => (Node.resultColumn column).Traced site := by
  refine .own resultColumn .resultColumn ?_
  unfold resultColumn
  refine .skip fun view => .ite ?_ (.ite ?_ (.ite ?_ (.ite ?_ (expressionColumn_traced traced))))
  · exact .skip fun _ => .of_pure (by simp [Node.children, ofResultColumn])
  iterate 2
    · refine .skip fun table => .skip fun span => ?_
      exact .of_pure (by simp [Node.children, ofResultColumn])
  · exact .skip fun drift => .ite (nestedQuery_traced traced) (expressionColumn_traced traced)

/-! ## Tables -/

/-- A table without joins is traced. The children of a joined or of a nested one are those read in
the parentheses. -/
lemma singleTable_traced :
    Gives site (singleTable (rules bound depth))
      fun table => (Node.tableRef table).Traced site := by
  refine .own singleTable .singleTable ?_
  unfold singleTable
  refine .skip fun start => .skip fun paren => .ite ?_ ?_
  · refine .skip fun isQuery => .ite ?_ ?_
    · refine .closed traced.query (fun _ => done_of_rightParen) fun query first => ?_
      refine .skip fun aliasName => ?_
      exact .skip fun span => .of_pure (by simpa [Node.children, ofTableRef] using first)
    · refine .bind traced.tableRef fun inner first => ?_
      refine .skip fun _ => .skip fun span => ?_
      exact .of_pure (by simpa [Node.children, ofTableRef] using first)
  · refine .skip fun name => .skip fun paren => .ite ?_ ?_
    · refine .bind (.whenever (exprs_traced traced)) fun arguments first => ?_
      refine .skip fun _ => ?_
      refine .skip fun aliasName => .skip fun span => .of_pure ?_
      cases arguments <;> simp_all [Node.children, ofTableRef]
    · refine .skip fun aliasName => .skip fun indexing => .skip fun span => ?_
      exact .of_pure (by simp [Node.children, ofTableRef])

/-- What is below the constraint of a join is traced, if it is there. -/
lemma optionalJoinConstraint_traced :
    Gives site (optionalJoinConstraint (rules bound depth))
      fun constraint => AllTraced site (constraint.toList.flatMap ofJoinConstraint) := by
  unfold optionalJoinConstraint
  refine .skip fun on => .ite ?_ (.skip fun using_ => .ite ?_ (.of_pure (by simp)))
  · exact .bind (expr_traced traced) fun expr first =>
      .of_pure (by simpa [ofJoinConstraint] using first)
  · exact .skip fun columns => .of_pure (by simp [ofJoinConstraint])

/-- A step of the loop over joins puts a join after the tables on the left. -/
lemma nextJoin_children (left : TableRef) :
    Gives site (nextJoin (rules bound depth) left) fun next => ∀ table ∈ next,
      ∃ join span, table = .join left join span ∧ AllTraced site (Node.join join).children := by
  unfold nextJoin
  refine .skip fun start => .skip fun operator => ?_
  split
  · refine .bind (singleTable_traced traced) fun table first => ?_
    refine .bind (optionalJoinConstraint_traced traced) fun constraint second => ?_
    refine .skip fun span => .of_pure ?_
    simpa [Node.children] using ⟨first, second⟩
  · exact .of_pure (by simp)

/-- A further join is traced if the tables before it are. They become its first child. -/
lemma nextJoin_traced {left : TableRef} (before : (Node.tableRef left).Traced site) :
    Gives site (nextJoin (rules bound depth) left)
      fun next => ∀ table ∈ next, (Node.tableRef table).Traced site := by
  rintro cursor next stop here run last table rfl
  obtain ⟨join, span, rfl, below⟩ := nextJoin_children traced left here run last table rfl
  have made : Made site (nextJoin · left) (some (.join left join span)) :=
    ⟨_, _, _, _, here, run, last⟩
  refine Node.traced_iff.mpr ⟨.joined made, ?_⟩
  simpa [Node.children, ofTableRef] using ⟨before, Node.traced_iff.mpr ⟨.join made, below⟩⟩

/-- Joined tables are traced, by the lemma about loops that carry what was read before. -/
lemma joinedTables_traced :
    Gives site (joinedTables (rules bound depth))
      fun table => (Node.tableRef table).Traced site := by
  unfold joinedTables
  exact .bind (singleTable_traced traced) fun first before =>
    .iterate (fun left before => nextJoin_traced traced before) _ before

/-! ## Members of a query -/

/-- A named window is traced. -/
lemma namedWindow_traced :
    Gives site (namedWindow (rules bound depth))
      fun window => (Node.namedWindow window).Traced site := by
  refine .own namedWindow .namedWindow ?_
  unfold namedWindow
  refine .skip fun start => .skip fun name => .skip fun _ => ?_
  refine .bind (windowDefinition_traced traced) fun definition first => ?_
  refine .skip fun span => ?_
  exact .of_pure (by simpa [Node.children] using first)

/-- Every window of the clause is traced. -/
lemma namedWindows_traced :
    Gives site (namedWindows (rules bound depth))
      fun windows => ∀ window ∈ windows, (Node.namedWindow window).Traced site := by
  unfold namedWindows
  refine .skip fun here => .skip fun _ => .skip fun _ => ?_
  exact .commaSeparated (namedWindow_traced traced) _

/-- A `SELECT` is traced: its columns, tables, conditions and windows are, in the order in which
they are read. -/
lemma selectClause_traced :
    Gives site (selectClause (rules bound depth))
      fun clause => (Node.selectClause clause).Traced site := by
  have groups : Gives site
      (afterKeyword .GROUP do let _ ← expectKeyword .BY; (rules bound depth).exprs)
      fun groups => ∀ exprs ∈ groups, ∀ expr ∈ exprs, (Node.expr expr).Traced site :=
    .afterKeyword (.skip fun _ => exprs_traced traced)
  have columns : Gives site (resultColumns (rules bound depth))
      fun columns => ∀ column ∈ columns, (Node.resultColumn column).Traced site :=
    .commaSeparated (resultColumn_traced traced) _
  refine .own selectClause .selectClause ?_
  unfold selectClause
  refine .skip fun start => .skip fun distinct => ?_
  refine .bind columns fun columns first => ?_
  refine .bind (.afterKeyword traced.tableRef) fun source second => ?_
  refine .bind (.afterKeyword (expr_traced traced)) fun filter third => ?_
  refine .bind groups fun groupBy fourth => ?_
  refine .bind (.afterKeyword (expr_traced traced)) fun having fifth => ?_
  refine .bind (.whenever (namedWindows_traced traced)) fun windows sixth => ?_
  refine .skip fun span => .of_pure ?_
  cases groupBy <;> cases windows <;> simp_all [Node.children]

/-- Rows of values are traced. -/
lemma valuesClause_traced :
    Gives site (valuesClause (rules bound depth))
      fun clause => (Node.valuesClause clause).Traced site := by
  refine .own valuesClause .valuesClause ?_
  unfold valuesClause
  refine .skip fun start => ?_
  refine .bind (.commaSeparated (.parenthesized (exprs_traced traced) fun _ _ => trivial) _)
    fun rows first => ?_
  refine .skip fun span => .of_pure fun node mem => ?_
  obtain ⟨row, inRows, mem⟩ := List.mem_flatMap.mp mem
  obtain ⟨expr, inRow, rfl⟩ := List.mem_map.mp mem
  exact first row inRows expr inRow

/-- A member of a query is traced, whether it is a `SELECT` or rows of values. -/
lemma queryCore_traced :
    Gives site (queryCore (rules bound depth)) fun core => core.node.Traced site := by
  unfold queryCore
  refine .skip fun token => ?_
  split
  · exact .bind (selectClause_traced traced) fun clause first => .of_pure first
  · exact .bind (valuesClause_traced traced) fun clause first => .of_pure first
  · exact .of_unexpected _

/-- A further member of a query is traced, with its operator. -/
lemma nextCompound_traced :
    Gives site (nextCompound (rules bound depth))
      fun part => ∀ member ∈ part, (Node.compoundPart member).Traced site := by
  refine .ownMaybe nextCompound .compoundPart ?_
  unfold nextCompound
  refine .skip fun start => .skip fun operator => ?_
  split
  · refine .bind (queryCore_traced traced) fun core first => ?_
    refine .skip fun span => ?_
    exact .of_pure (by simpa [Node.children] using first)
  · exact .of_pure (by simp)

/-! ## Limits -/

/-- The expressions of a limit are traced. -/
lemma limitExpressions_traced :
    Gives site (limitExpressions (rules bound depth))
      fun kind => AllTraced site (ofLimitKind kind) := by
  unfold limitExpressions
  refine .bind (expr_traced traced) fun first below => ?_
  refine .skip fun offset => .ite ?_ (.skip fun comma => .ite ?_ ?_)
  · exact .bind (expr_traced traced) fun second also =>
      .of_pure (by simpa [ofLimitKind] using ⟨below, also⟩)
  · exact .bind (expr_traced traced) fun second also =>
      .of_pure (by simpa [ofLimitKind] using ⟨also, below⟩)
  · exact .of_pure (by simpa [ofLimitKind] using below)

/-- A limit is traced where no operator follows it. A placeholder has no children; otherwise its
expressions were read. -/
lemma limit_traced :
    GivesBefore site Cursor.PastOperators (limit (rules bound depth))
      fun limit => (Node.limit limit).Traced site := by
  have expressions (start : Span) : GivesBefore site Cursor.PastOperators
      (do
        let kind ← limitExpressions (rules bound depth)
        return ⟨kind, ← spanFrom start⟩)
      fun limit : Limit => AllTraced site (Node.limit limit).children := by
    refine .bind (limitExpressions_traced traced) fun kind below => ?_
    exact .skip fun span => .of_pure below
  refine .own limit .limit ?_
  unfold limit
  refine .skip fun start => .skip fun view => ?_
  split
  · refine .skip fun drift => .ite ?_ (expressions start)
    refine .skip fun _ => .skip fun span => ?_
    exact .of_pure (by simp [Node.children, ofLimitKind])
  · exact expressions start

/-! ## Queries -/

/-- The children of a query are traced where no operator follows it, if the common tables read
before are. The ordering ends before the limit, and the limit ends the query. -/
lemma queryAfter_traced {commonTables : Option WithClause} (start : Span)
    (tables : ∀ clause ∈ commonTables, (Node.withClause clause).Traced site) :
    GivesBefore site Cursor.PastOperators (queryAfter (rules bound depth) commonTables start)
      fun query => AllTraced site (Node.query query).children := by
  unfold queryAfter
  refine .bind (queryCore_traced traced) fun core first => ?_
  refine .bind (.many (nextCompound_traced traced) _) fun compounds second => ?_
  refine .bindBefore (optionalOrderBy_traced traced) ?_ fun order third => ?_
  · -- after the order comes a limit, or the query ends
    intro order middle query stop run ends
    obtain ⟨limit, place, run₁, -, run⟩ := accepted_bind run
    obtain ⟨-, rfl⟩ := accepted_return run
    unfold whenever at run₁
    rw [run_sees_bind] at run₁
    split at run₁
    · next at_ => exact pastOperators_of_keyword at_ rfl
    · obtain ⟨-, rfl⟩ := accepted_pure run₁
      exact ends
  · refine .bindBefore (.whenever (limit_traced traced)) ?_ fun limit fourth => ?_
    · intro limit middle query stop run ends
      obtain ⟨-, rfl⟩ := accepted_return run
      exact ends
    · refine .skip fun span => .of_pure ?_
      simpa [Node.children] using ⟨tables, first, second, third, fourth⟩

/-- A query is traced where it is done. -/
lemma query_traced :
    GivesBefore site Rereading.Done (query (rules bound depth))
      fun query => (Node.query query).Traced site := by
  have below : GivesBefore site Cursor.PastOperators (query (rules bound depth))
      fun query => AllTraced site (Node.query query).children := by
    unfold query
    refine .skip fun start => ?_
    refine .bind (.whenever (withClause_traced traced)) fun commonTables tables => ?_
    exact queryAfter_traced traced start tables
  exact .own query .query (below.before fun _ => pastOperators_of_done)

omit traced in
/-- **All nodes of whatever the rules accept are traced**, since the rules of each depth are built
from those below. -/
lemma rules_traced (site : Site) (bound depth : Nat) : (rules bound depth).Traced site := by
  induction depth with
  | zero => exact ⟨fun _ => .of_exhausted, .of_exhausted, .of_exhausted⟩
  | succ depth ih => exact ⟨expression_traced ih, query_traced ih, joinedTables_traced ih⟩

end SqlTree.Grammar
