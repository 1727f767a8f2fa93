import SqlTree.Grammar.Knot
import SqlTree.Proofs.Gates.Ensures
import SqlTree.Proofs.Uses

set_option autoImplicit false

/-!
# The gates of expressions

Whatever the parsers of expressions accept in a dialect uses only features of the dialect, if the
rules for the parts are like that. Each construct of a feature is accepted only after the feature
was demanded, or after asking whether the drift extensions are read.

## Main definitions

* `SqlTree.Grammar.Rules.Gated` — what the rules accept uses only features of the dialect.

## Main results

* `SqlTree.Grammar.expression_gated` — expressions over gated rules.
-/

namespace SqlTree.Grammar

open SqlTree.Parser

/-- Expressions, queries and table references that the rules accept use only features of the
dialect. -/
structure Rules.Gated (dialect : Dialect) (rules : Rules) : Prop where
  operators : ∀ least,
    Ensures dialect (rules.operators least) fun expr => dialect.Reads expr.features
  query : Ensures dialect rules.query fun query => dialect.Reads query.features
  tableRef : Ensures dialect rules.tableRef fun table => dialect.Reads table.features

variable {dialect : Dialect} {rules : Rules}

section

variable (gated : rules.Gated dialect)

include gated

/-- Expressions read no feature that the dialect lacks. -/
lemma expr_gated : Ensures dialect rules.expr fun expr => dialect.Reads expr.features :=
  gated.operators 0

/-- Lists of expressions read no feature that the dialect lacks. -/
lemma exprs_gated :
    Ensures dialect rules.exprs fun exprs => ∀ expr ∈ exprs, dialect.Reads expr.features :=
  .commaSeparated (expr_gated gated) _

end

/-! ## Variables and placeholders -/

/-- A variable reads no feature, and a Dart placeholder is only read with the drift extensions. -/
lemma variableExpr_gated :
    Ensures dialect variableExpr fun expr => dialect.Reads expr.features := by
  unfold variableExpr
  refine .skip fun view => ?_
  split
  · split
    · refine .isDrift (.ite (fun drift => ?_) fun _ => ?_)
      · exact .skip fun _ => .of_pure (by simpa [Expr.features] using drift)
      · exact .skip fun _ => .of_pure (by simp [Expr.features])
    · exact .skip fun _ => .of_pure (by simp [Expr.features])
  · exact .of_unexpected _

/-! ## Sorting -/

/-- Nulls are ordered only where the dialect has the feature. -/
lemma nullOrdering_gated :
    Ensures dialect nullOrdering fun _ => dialect.supports .nullsOrdering = true := by
  unfold nullOrdering
  refine .skip fun here => ?_
  refine .require fun has => ?_
  refine .skip fun _ => .skip fun first => ?_
  refine .ite (fun _ => .of_pure has) fun _ => .skip fun last => ?_
  exact .ite (fun _ => .of_pure has) fun _ => .of_unexpected _

section

variable (gated : rules.Gated dialect)

include gated

/-- An ordering term reads no feature that the dialect lacks: `NULLS` is read after the demand for
its feature. -/
lemma orderingTerm_gated :
    Ensures dialect (orderingTerm rules) fun term => dialect.Reads term.features := by
  unfold orderingTerm
  refine .bind (expr_gated gated) fun expr reads => ?_
  refine .skip fun direction => ?_
  refine .bind (.whenever nullOrdering_gated) fun nulls has => ?_
  refine .skip fun span => .of_pure ?_
  cases nulls <;> simp_all [OrderingTerm.features]

/-- A placeholder among ordering items is only read with the drift extensions. -/
lemma orderingItem_gated :
    Ensures dialect (orderingItem rules) fun item => dialect.Reads item.features := by
  have term : Ensures dialect (do return .term (← orderingTerm rules))
      fun item : OrderingItem => dialect.Reads item.features :=
    .bind (orderingTerm_gated gated) fun term reads =>
      .of_pure (by simpa [OrderingItem.features] using reads)
  unfold orderingItem
  refine .skip fun view => ?_
  split
  · refine .isDrift (.ite (fun drift => .skip fun _ => .of_pure ?_) fun _ => term)
    simpa [OrderingItem.features] using drift
  · exact term

/-- `ORDER BY` reads no feature that the dialect lacks. -/
lemma orderBy_gated :
    Ensures dialect (orderBy rules) fun order => dialect.Reads order.features := by
  unfold orderBy
  refine .skip fun start => .skip fun _ => ?_
  refine .bind (.commaSeparated (orderingItem_gated gated) _) fun items reads => ?_
  exact .skip fun span => .of_pure (by simpa [OrderBy.features] using reads)

/-- `ORDER BY` that may be left out reads no feature that the dialect lacks. -/
lemma optionalOrderBy_gated :
    Ensures dialect (optionalOrderBy rules)
      fun order => ∀ part ∈ order, dialect.Reads part.features :=
  .whenever (orderBy_gated gated)

/-! ## Windows -/

/-- A bound of a frame reads no feature that the dialect lacks. -/
lemma frameBound_gated :
    Ensures dialect (frameBound rules) fun bound => dialect.Reads bound.features := by
  unfold frameBound
  refine .skip fun view => .ite (fun _ => ?_) fun _ => .ite (fun _ => ?_) fun _ =>
    .ite (fun _ => ?_) fun _ => ?_
  iterate 3 exact .skip fun _ => .skip fun _ => .of_pure (by simp [FrameBound.features])
  refine .bind (expr_gated gated) fun offset reads => ?_
  refine .skip fun preceding => ?_
  refine .ite (fun _ => .of_pure reads) fun _ => .skip fun following => ?_
  exact .ite (fun _ => .of_pure reads) fun _ => .of_unexpected _

/-- The two bounds after `BETWEEN` read no feature that the dialect lacks. -/
lemma frameBetween_gated :
    Ensures dialect (frameBetween rules)
      fun bounds => dialect.Reads bounds.1.features ∧ dialect.Reads bounds.2.features := by
  unfold frameBetween
  refine .skip fun startSpan => ?_
  refine .bind (frameBound_gated gated) fun start first => ?_
  split
  · exact .skip fun span => .of_invalid _ _
  · refine .skip fun _ => .skip fun stopSpan => ?_
    refine .bind (frameBound_gated gated) fun stop second => ?_
    split
    · exact .skip fun span => .of_invalid _ _
    · exact .of_pure ⟨first, second⟩

/-- A single bound reads no feature that the dialect lacks. -/
lemma frameFrom_gated :
    Ensures dialect (frameFrom rules)
      fun bounds => dialect.Reads bounds.1.features ∧ dialect.Reads bounds.2.features := by
  unfold frameFrom
  refine .skip fun startSpan => ?_
  refine .bind (frameBound_gated gated) fun start first => ?_
  split
  · exact .skip fun span => .of_invalid _ _
  · exact .skip fun span => .of_invalid _ _
  · exact .of_pure ⟨first, by simp [FrameBound.features]⟩

/-- A frame reads no feature that the dialect lacks. -/
lemma optionalFrame_gated :
    Ensures dialect (optionalFrame rules)
      fun frame => ∀ part ∈ frame, dialect.Reads part.features := by
  have whole (unit : FrameUnit) (start : Span) (bounds : FrameBound × FrameBound)
      (reads : dialect.Reads bounds.1.features ∧ dialect.Reads bounds.2.features) :
      Ensures dialect
        (do
          let exclude ← exclusion
          return some ⟨unit, bounds.1, bounds.2, exclude, ← spanFrom start⟩)
        fun frame : Option Frame => ∀ part ∈ frame, dialect.Reads part.features := by
    refine .skip fun exclude => .skip fun span => ?_
    exact .of_pure (by simpa [Frame.features] using reads)
  unfold optionalFrame
  refine .skip fun token => ?_
  split
  · refine .skip fun _ => .skip fun between => .ite (fun _ => ?_) fun _ => ?_
    · exact .bind (frameBetween_gated gated) (whole _ _)
    · exact .bind (frameFrom_gated gated) (whole _ _)
  · exact .of_pure (by simp)

/-- A window in parentheses reads no feature that the dialect lacks. -/
lemma windowDefinition_gated :
    Ensures dialect (windowDefinition rules) fun window => dialect.Reads window.features := by
  have partitions : Ensures dialect
      (afterKeyword .PARTITION do let _ ← expectKeyword .BY; rules.exprs)
      fun partition => ∀ exprs ∈ partition, ∀ expr ∈ exprs, dialect.Reads expr.features :=
    .afterKeyword (.skip fun _ => exprs_gated gated)
  unfold windowDefinition
  refine .skip fun start => .skip fun base => ?_
  refine .bind partitions fun partition first => ?_
  refine .bind (optionalOrderBy_gated gated) fun order second => ?_
  refine .bind (optionalFrame_gated gated) fun frame third => ?_
  refine .skip fun _ => .skip fun span => .of_pure ?_
  cases partition <;> simp_all [Window.features]

/-! ## Function calls -/

/-- The parameters of a call read no feature that the dialect lacks. -/
lemma callParameters_gated :
    Ensures dialect (callParameters rules) fun parts =>
      dialect.Reads parts.1.features ∧ ∀ order ∈ parts.2, dialect.Reads order.features := by
  unfold callParameters
  refine .skip fun closed => .ite (fun _ => ?_) fun _ => .skip fun star => .ite (fun _ => ?_)
    fun _ => .skip fun distinct => ?_
  iterate 2 exact .of_pure (by simp [Parameters.features])
  refine .bind (exprs_gated gated) fun arguments first => ?_
  refine .bind (optionalOrderBy_gated gated) fun order second => .of_pure ?_
  exact ⟨by simpa [Parameters.features] using first, second⟩

/-- `FILTER` is read after the demand for window functions. -/
lemma optionalFilter_gated :
    Ensures dialect (optionalFilter rules) fun filter => ∀ expr ∈ filter,
      dialect.supports .windowFunctions = true ∧ dialect.Reads expr.features := by
  unfold optionalFilter
  refine .whenever (.skip fun here => .require fun has => .skip fun _ => .parenthesized ?_)
  exact .skip fun _ => (expr_gated gated).mono fun expr reads => ⟨has, reads⟩

/-- The window of a call reads no feature that the dialect lacks. -/
lemma functionWindow_gated :
    Ensures dialect (functionWindow rules) fun window => dialect.Reads window.features := by
  unfold functionWindow
  refine .skip fun inline => .ite (fun _ => ?_) fun _ => ?_
  · exact .bind (windowDefinition_gated gated) fun window reads =>
      .of_pure (by simpa [Over.features] using reads)
  · refine .skip fun start => .skip fun name => .skip fun span => ?_
    exact .of_pure (by simp [Over.features])

/-- A call reads no feature that the dialect lacks: what makes it a window function, `FILTER` or
`OVER`, is read after the demand for them. -/
lemma functionCall_gated :
    Ensures dialect (functionCall rules) fun expr => dialect.Reads expr.features := by
  unfold functionCall
  refine .skip fun token => .bind (.parenthesized (callParameters_gated gated)) ?_
  rintro ⟨parameters, order⟩ ⟨first, second⟩
  refine .bind (optionalFilter_gated gated) fun filter third => ?_
  refine .skip fun isOver => .ite (fun _ => ?_) fun _ => .ite (fun _ => ?_) fun _ => ?_
  · refine .skip fun here => ?_
    refine .require fun has => ?_
    split
    · exact .of_invalid _ _
    · refine .skip fun _ => ?_
      refine .bind (functionWindow_gated gated) fun window fourth => ?_
      refine .skip fun span => .of_pure ?_
      cases filter <;> simp_all [Expr.features]
  · refine .skip fun span => .of_pure ?_
    cases filter <;> simp_all [Expr.features]
  · exact .skip fun span => .of_pure (by simpa [Expr.features] using first)

/-! ## Operands -/

/-- An expression, a row or a query in parentheses reads no feature that the dialect lacks. -/
lemma parenthesizedExpr_gated :
    Ensures dialect (parenthesizedExpr rules) fun expr => dialect.Reads expr.features := by
  unfold parenthesizedExpr
  refine .skip fun start => .skip fun isQuery => .ite (fun _ => ?_) fun _ => ?_
  · refine .bind gated.query fun query reads => ?_
    refine .skip fun _ => .skip fun span => ?_
    exact .of_pure (by simpa [Expr.features] using reads)
  · refine .bind (expr_gated gated) fun expr first => ?_
    refine .skip fun more => .ite (fun _ => ?_) fun _ => ?_
    · refine .bind (exprs_gated gated) fun rest others => ?_
      refine .skip fun _ => .skip fun span => ?_
      exact .of_pure (by simpa [Expr.features] using ⟨first, others⟩)
    · refine .skip fun _ => .skip fun span => ?_
      exact .of_pure (by simpa [Expr.features] using first)

omit gated in
/-- A reference to a column reads no feature. -/
lemma reference_gated : Ensures dialect reference fun expr => dialect.Reads expr.features := by
  unfold reference
  refine .skip fun start => .skip fun first => .skip fun dot => .ite (fun _ => ?_) fun _ => ?_
  · refine .skip fun second => .skip fun dot => .ite (fun _ => ?_) fun _ => ?_
    · refine .skip fun third => .skip fun span => ?_
      exact .of_pure (by simp [Expr.features])
    · exact .skip fun span => .of_pure (by simp [Expr.features])
  · exact .skip fun span => .of_pure (by simp [Expr.features])

/-- A branch of `CASE` reads no feature that the dialect lacks. -/
lemma whenClause_gated :
    Ensures dialect (whenClause rules) fun branch => dialect.Reads branch.features := by
  unfold whenClause
  refine .skip fun start => ?_
  refine .bind (expr_gated gated) fun condition first => ?_
  refine .skip fun _ => ?_
  refine .bind (expr_gated gated) fun result second => ?_
  refine .skip fun span => .of_pure ?_
  simpa [WhenClause.features] using ⟨first, second⟩

/-- `CASE` reads no feature that the dialect lacks. -/
lemma caseExpr_gated :
    Ensures dialect (caseExpr rules) fun expr => dialect.Reads expr.features := by
  unfold caseExpr
  refine .skip fun start => ?_
  refine .bind (.whenever (expr_gated gated)) fun operand first => ?_
  refine .bind (.many (.whenever (whenClause_gated gated)) _) fun branches second => ?_
  refine .ite (fun _ => .of_unexpected _) fun _ => ?_
  refine .bind (.afterKeyword (expr_gated gated)) fun otherwise third => ?_
  refine .skip fun _ => .skip fun span => ?_
  exact .of_pure (by simpa [Expr.features] using ⟨first, second, third⟩)

/-- `CAST` reads no feature that the dialect lacks. -/
lemma castExpr_gated :
    Ensures dialect (castExpr rules) fun expr => dialect.Reads expr.features := by
  unfold castExpr
  refine .skip fun start => .skip fun _ => ?_
  refine .bind (expr_gated gated) fun operand reads => ?_
  refine .skip fun _ => .skip fun type => .skip fun _ => .skip fun span => ?_
  exact .of_pure (by simpa [Expr.features] using reads)

/-- `EXISTS` reads no feature that the dialect lacks. -/
lemma existsExpr_gated :
    Ensures dialect (existsExpr rules) fun expr => dialect.Reads expr.features := by
  unfold existsExpr
  refine .skip fun start => .skip fun negated => .skip fun _ => ?_
  refine .bind (.parenthesized gated.query) fun query reads => ?_
  refine .skip fun span => ?_
  exact .of_pure (by simpa [Expr.features] using reads)

/-- `RAISE` reads no feature that the dialect lacks. -/
lemma raiseExpr_gated :
    Ensures dialect (raiseExpr rules) fun expr => dialect.Reads expr.features := by
  have message (action : RaiseAction) : Ensures dialect
      (whenever (fun _ => action ≠ .ignore) do let _ ← expectSymbol .comma; rules.expr)
      fun message => ∀ expr ∈ message, dialect.Reads expr.features :=
    .whenever (.skip fun _ => expr_gated gated)
  unfold raiseExpr
  refine .skip fun start => .skip fun _ => .skip fun token => ?_
  split
  · refine .skip fun _ => ?_
    refine .bind (message _) fun text reads => ?_
    refine .skip fun _ => .skip fun span => ?_
    exact .of_pure (by simpa [Expr.features] using reads)
  · exact .of_unexpected _

/-- An operand without prefix reads no feature that the dialect lacks. -/
lemma primary_gated : Ensures dialect (primary rules) fun expr => dialect.Reads expr.features := by
  unfold primary
  refine .skip fun view => ?_
  split
  · exact .skip fun token => .of_pure (by simp [Expr.features])
  · split
    · exact parenthesizedExpr_gated gated
    · exact caseExpr_gated gated
    · exact castExpr_gated gated
    · exact existsExpr_gated gated
    · refine .ite (fun _ => raiseExpr_gated gated) fun _ => ?_
      refine .ite (fun _ => functionCall_gated gated) fun _ => ?_
      exact .ite (fun _ => reference_gated) fun _ => variableExpr_gated

/-- An operand reads no feature that the dialect lacks. -/
lemma operand_gated : Ensures dialect (operand rules) fun expr => dialect.Reads expr.features := by
  unfold operand
  refine .skip fun view => .ite (fun _ => existsExpr_gated gated) fun _ => ?_
  split
  · refine .skip fun token => ?_
    refine .bind (gated.operators _) fun operand reads => ?_
    refine .skip fun span => ?_
    exact .of_pure (by simpa [Expr.features] using reads)
  · exact primary_gated gated

/-! ## Operators after an operand -/

/-- What follows `IN` reads no feature that the dialect lacks. -/
lemma inSource_gated :
    Ensures dialect (inSource rules) fun source => dialect.Reads source.features := by
  unfold inSource
  refine .skip fun view => .ite (fun _ => .parenthesized ?_) fun _ => ?_
  · refine .skip fun closed => .ite (fun _ => ?_) fun _ => .skip fun isQuery =>
      .ite (fun _ => ?_) fun _ => ?_
    · exact .of_pure (by simp [InSource.features])
    · exact .bind gated.query fun query reads =>
        .of_pure (by simpa [InSource.features] using reads)
    · exact .bind (exprs_gated gated) fun items reads =>
        .of_pure (by simpa [InSource.features] using reads)
  · split
    · exact .bind variableExpr_gated fun which reads =>
        .of_pure (by simpa [InSource.features] using reads)
    · refine .ite (fun _ => .skip fun name => .skip fun span => .of_pure ?_)
        fun _ => .of_unexpected _
      simp [InSource.features]

variable {left : Expr} (leftReads : dialect.Reads left.features)

include leftReads

/-- An operator that `NOT` may precede reads no feature that the dialect lacks. -/
lemma negatable_gated (negated : Bool) :
    Ensures dialect (negatable rules left negated) fun expr => dialect.Reads expr.features := by
  unfold negatable
  refine .skip fun token => ?_
  dsimp only
  split
  · refine .skip fun _ => ?_
    refine .bind (gated.operators _) fun low first => ?_
    refine .skip fun _ => ?_
    refine .bind (gated.operators _) fun high second => ?_
    refine .skip fun span => .of_pure ?_
    simpa [Expr.features] using ⟨leftReads, first, second⟩
  · refine .skip fun _ => ?_
    refine .bind (inSource_gated gated) fun source reads => ?_
    refine .skip fun span => ?_
    exact .of_pure (by simpa [Expr.features] using ⟨leftReads, reads⟩)
  · split
    · refine .skip fun _ => ?_
      refine .bind (gated.operators _) fun pattern first => ?_
      refine .bind (.afterKeyword (gated.operators _)) fun escape second => ?_
      exact .skip fun span =>
        .of_pure (by simpa [Expr.features] using ⟨leftReads, first, second⟩)
    · exact .of_unexpected _

/-- What follows `IS` reads no feature that the dialect lacks: `DISTINCT FROM` is demanded, but the
tree has no trace of it. -/
lemma isExpr_gated :
    Ensures dialect (isExpr rules left) fun expr => dialect.Reads expr.features := by
  unfold isExpr
  refine .skip fun negated => .skip fun null => .ite (fun _ => ?_) fun _ => ?_
  · exact .skip fun span => .of_pure (by simpa [Expr.features] using leftReads)
  · refine .skip fun distinct => ?_
    refine .bind (gated.operators _) fun right reads => .of_pure ?_
    split <;> simpa [Expr.features, BinaryOp.features] using ⟨leftReads, reads⟩

/-- An arrow is read after the demand for its feature, and the other binary operators are read in
every dialect. -/
lemma binaryExpr_gated (power : Nat) :
    Ensures dialect (binaryExpr rules left power) fun expr => dialect.Reads expr.features := by
  have whole (op : BinaryOp) (has : dialect.Reads op.features) : Ensures dialect
      (do
        let _ ← advance
        let right ← rules.operators (power + 1)
        return .binary left op right (left.span.merge right.span))
      fun expr : Expr => dialect.Reads expr.features := by
    refine .skip fun _ => ?_
    refine .bind (gated.operators _) fun right reads => .of_pure ?_
    simpa [Expr.features] using ⟨leftReads, has, reads⟩
  unfold binaryExpr
  refine .skip fun token => ?_
  split
  · next op _ =>
    refine .ite (fun arrow => ?_) fun plain => whole op ?_
    · refine .require fun has => whole op ?_
      rcases Bool.or_eq_true _ _ ▸ arrow with eq | eq <;>
        simp [of_decide_eq_true eq, BinaryOp.features, has]
    · cases op <;> simp_all [BinaryOp.features]
  · exact .of_unexpected _

/-- An operator after an operand reads no feature that the dialect lacks, if the operand does
not. -/
lemma operatorAfter_gated (power : Nat) :
    Ensures dialect (operatorAfter rules left power) fun expr => dialect.Reads expr.features := by
  unfold operatorAfter
  refine .skip fun token => ?_
  split
  · refine .skip fun _ => .skip fun collation => .skip fun span => ?_
    exact .of_pure leftReads
  · refine .skip fun _ => .skip fun span => ?_
    exact .of_pure leftReads
  · refine .skip fun _ => .skip fun span => ?_
    exact .of_pure leftReads
  · exact .skip fun _ => isExpr_gated gated leftReads
  · refine .skip fun _ => .skip fun null => .ite (fun _ => ?_) fun _ => ?_
    · exact .skip fun span => .of_pure leftReads
    · exact negatable_gated gated leftReads true
  iterate 6 exact negatable_gated gated leftReads false
  exact binaryExpr_gated gated leftReads power

/-- A turn of the operator loop adds no feature that the dialect lacks. -/
lemma nextOperator_gated (least : Nat) :
    Ensures dialect (nextOperator rules least left)
      fun next => ∀ expr ∈ next, dialect.Reads expr.features := by
  unfold nextOperator
  refine .skip fun view => ?_
  split
  · refine .ite (fun _ => .of_pure (by simp)) fun _ => ?_
    exact .bind (operatorAfter_gated gated leftReads _) fun expr reads =>
      .of_pure (by simpa using reads)
  · exact .of_pure (by simp)

end

/-- Expressions over gated rules use only features of the dialect: so does the first operand, and
each operator after it keeps that. -/
lemma expression_gated (gated : rules.Gated dialect) (least : Nat) :
    Ensures dialect (expression rules least) fun expr => dialect.Reads expr.features := by
  unfold expression
  exact .bind (operand_gated gated) fun first reads =>
    .iterate (fun left reads => nextOperator_gated gated reads least) _ reads

end SqlTree.Grammar
