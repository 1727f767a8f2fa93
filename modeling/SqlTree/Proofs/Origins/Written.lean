import SqlTree.Proofs.Bounds.Statement
import SqlTree.Proofs.Legible.Scanned
import SqlTree.Proofs.Origins.Traced
import SqlTree.Proofs.Spans.Source

set_option autoImplicit false

/-!
# What has been read can be written

Every value of a node that is written as a token of its own has been read from such a token, so it
can be written again; and the texts that are kept verbatim consist of tokens.

## Main results

* `SqlTree.Node.IsRead.isWritten` — nodes that have been read can be written.
-/

namespace SqlTree

open Grammar SqlTree.Parser

/-- What is seen from a place of a source is one of its tokens. -/
lemma Site.peek_mem {dialect : Dialect} {source : String} {cursor : Cursor}
    (here : (Site.within dialect source).holds cursor) (distance : Nat) :
    cursor.peek distance ∈ tokenize dialect.isDrift source := by
  obtain ⟨⟨count, eq⟩, same⟩ := here
  rw [eq, same, Cursor.peek_iterate_advance]
  exact Cursor.peek_mem _ _ _

namespace Token.IsWritten

variable {drift : Bool}

/-- A token of a variable can be written, and so can the variable. -/
lemma «variable» {token : Token} {which : Variable} (isWritten : token.IsWritten drift)
    (kind : token.kind = .variable which) : which.IsWritten := by
  unfold IsWritten at isWritten
  rwa [kind] at isWritten

/-- The name of a placeholder can be written. -/
lemma dollar {view : View} {name : String} (isWritten : view.current.IsWritten drift)
    (dollar : view.dollarName? = some name) : (Variable.named .dollar name).IsWritten := by
  unfold View.dollarName? at dollar
  split at dollar
  · next kind => exact Option.some.inj dollar ▸ isWritten.variable kind
  · cases dollar

end Token.IsWritten

namespace Grammar

variable {dialect : Dialect} {source : String} {rules : Rules}

/-- The tokens that are seen from a place of a source are tokens of that source. -/
lemma view_mem : Gives (.within dialect source) view fun view =>
    view.current ∈ tokenize dialect.isDrift source ∧
      view.third ∈ tokenize dialect.isDrift source := by
  intro cursor value stop here run _
  obtain ⟨rfl, -⟩ : cursor.view = value ∧ cursor = stop := by simpa [Parser.run, view] using run
  exact ⟨Site.peek_mem here 0, Site.peek_mem here 2⟩

/-- The next token can be written. -/
lemma current_isWritten : Gives (.within dialect source) current fun token =>
    token.IsWritten dialect.isDrift := by
  intro cursor value stop here run _
  obtain ⟨rfl, -⟩ : cursor.view.current = value ∧ cursor = stop := by
    simpa [Parser.run, current] using run
  exact tokenize_isWritten (Site.peek_mem here 0)

/-! ## Literals and variables -/

/-- A literal that has been read can be written again: a floating-point number as its token was,
and all others whatever they were read from. -/
lemma literal_isWritten {token : Token} {value : Literal}
    (isWritten : token.IsWritten dialect.isDrift) (found : literal? token.kind = some value)
    (span : Span) :
    (Node.expr (.literal value span)).IsWritten dialect.isDrift := by
  cases value with
  | float number =>
    rw [Token.IsWritten, kind_of_literal? found] at isWritten
    exact Literal.alone_float isWritten
  | _ => exact True.intro

/-- An operand can be written: the literals, names and variables in it have been read from
tokens. -/
lemma operand_isWritten : Gives (.within dialect source) (operand rules) fun expr =>
    (Node.expr expr).IsWritten dialect.isDrift := by
  intro cursor expr stop here run _
  have isWritten := tokenize_isWritten (Site.peek_mem here 0)
  rcases accepted_operand run with ⟨value, found, rfl, -⟩ | run | ⟨-, -, run⟩ | larger
  · exact literal_isWritten isWritten found _
  · obtain ⟨-, ⟨name, dollar, rfl⟩ | ⟨which, kind, rfl⟩⟩ := variableExpr_token run
    · have isWritten : cursor.view.current.IsWritten dialect.isDrift := isWritten
      exact isWritten.dollar dollar
    · exact isWritten.variable kind
  · have call := functionCall_yields run
    cases expr <;> trivial
  · cases expr <;> trivial

/-- A chain of operators can be written if its operands can. What an operator makes holds no token
of its own. -/
lemma Chained.isWritten {least : Nat} {expr : Expr} {cursor stop : Cursor}
    (chain : Chained (.within dialect source) rules least cursor expr stop) :
    (Node.expr expr).IsWritten dialect.isDrift := by
  cases chain with
  | operand here run => exact operand_isWritten here run trivial
  | operator _ run =>
    have larger := nextOperator_yields run
    cases expr <;> trivial

/-! ## Placeholders -/

/-- A placeholder that stands alone is a dollar name. -/
lemma dollar_of_lonePlaceholder {modifies : Token → Bool} {view : View} {name : String}
    (lone : atLonePlaceholder modifies view = some name) : view.dollarName? = some name := by
  unfold atLonePlaceholder at lone
  split at lone
  · cases lone
  · exact lone

/-- An item of an ordering can be written: a placeholder has the name of a token. -/
lemma orderingItem_isWritten : Gives (.within dialect source) (orderingItem rules) fun item =>
    (Node.orderingItem item).IsWritten dialect.isDrift := by
  unfold orderingItem
  refine .bind view_mem fun view seen => ?_
  split
  · next name lone =>
    refine .skip fun drift => .ite (.skip fun _ => .of_pure ?_) (.skip fun _ => .of_pure trivial)
    exact (tokenize_isWritten seen.1).dollar (dollar_of_lonePlaceholder lone)
  · exact .skip fun _ => .of_pure trivial

/-- A limit by expressions can be written, as it holds no token of its own. -/
lemma limitExpressions_isWritten (span : Span) :
    (limitExpressions rules).Yields fun kind =>
      (Node.limit ⟨kind, span⟩).IsWritten dialect.isDrift := by
  unfold limitExpressions
  refine .bind fun first => ?_
  refine .bind fun isOffset => ?_
  split
  · exact .bind fun _ => .of_pure trivial
  · refine .bind fun _ => ?_
    split
    · exact .bind fun _ => .of_pure trivial
    · exact .of_pure trivial

/-- A limit can be written: a placeholder has the name of a token. -/
lemma limit_isWritten : Gives (.within dialect source) (limit rules) fun limit =>
    (Node.limit limit).IsWritten dialect.isDrift := by
  have expressions : Gives (.within dialect source) (limitExpressions rules) fun kind =>
      ∀ span, (Node.limit ⟨kind, span⟩).IsWritten dialect.isDrift :=
    fun _ _ _ _ run _ span => limitExpressions_isWritten span run
  unfold limit
  refine .skip fun start => ?_
  refine .bind view_mem fun view seen => ?_
  split
  · next name lone =>
    refine .skip fun drift => .ite (.skip fun _ => .skip fun _ => .of_pure ?_) ?_
    · exact (tokenize_isWritten seen.1).dollar (dollar_of_lonePlaceholder lone)
    · refine .bind expressions fun kind first => ?_
      exact .skip fun span => .of_pure (first span)
  · refine .bind expressions fun kind first => ?_
    exact .skip fun span => .of_pure (first span)

/-- The placeholder that stands for the rows of an insertion can be written. -/
lemma insertSource_isWritten : Gives (.within dialect source) (insertSource rules) fun source =>
    ∀ name span, source = .placeholder name span → (Variable.named .dollar name).IsWritten := by
  unfold insertSource
  refine .bind view_mem fun view seen => .ite ?_ (.ite ?_ (.ite ?_ ?_))
  · exact .skip fun _ => .of_pure (by simp)
  · exact .skip fun _ => .of_pure (by simp)
  · refine .skip fun _ => .skip fun _ => .skip fun span => ?_
    exact .of_pure (by simp)
  · split
    · next name dollar =>
      refine .skip fun drift => .ite (.skip fun _ => .of_pure ?_) (.of_unexpected _)
      rintro _ _ ⟨rfl, -⟩
      exact (tokenize_isWritten seen.1).dollar dollar
    · exact .of_unexpected _

/-! ## Dart code -/

/-- Dart code in backticks has been read from a token, so it can be written. -/
lemma dartCode_isWritten : Gives (.within dialect source) dartCode fun code =>
    IsDart dialect.isDrift code := by
  unfold dartCode
  refine .bind current_isWritten fun token isWritten => ?_
  unfold Token.IsWritten at isWritten
  split
  · next code kind =>
    rw [kind] at isWritten
    exact .skip fun _ => .of_pure isWritten
  · exact .of_unexpected _

/-- The code of a converter can be written. -/
lemma mappedBy_isWritten : Gives (.within dialect source) mappedBy fun code =>
    IsDart dialect.isDrift code := by
  unfold mappedBy
  refine .skip fun start => .skip fun _ => .skip fun _ => .skip fun _ => ?_
  exact dartCode_isWritten

/-- A column made by an expression can be written: its converter has been read from a token. -/
lemma expressionColumn_isWritten : Gives (.within dialect source) (expressionColumn rules)
    fun column => (Node.resultColumn column).IsWritten dialect.isDrift := by
  have mapped : Gives (.within dialect source) optionalMappedBy fun value =>
      ∀ code ∈ value, IsDart dialect.isDrift code := .whenever mappedBy_isWritten
  unfold expressionColumn
  refine .skip fun start => .skip fun expr => ?_
  refine .bind mapped fun code first => ?_
  split
  · refine .skip fun aliasName => .skip fun span => ?_
    exact .of_pure first
  · refine .skip fun aliasName => ?_
    refine .bind mapped fun code second => ?_
    exact .skip fun span => .of_pure second

/-- A result column can be written. -/
lemma resultColumn_isWritten : Gives (.within dialect source) (resultColumn rules) fun column =>
    (Node.resultColumn column).IsWritten dialect.isDrift := by
  have nested : Gives (.within dialect source) (nestedQuery rules) fun column =>
      (Node.resultColumn column).IsWritten dialect.isDrift := by
    unfold nestedQuery
    refine .skip fun start => .skip fun _ => .skip fun query => .skip fun aliasName => ?_
    exact .skip fun _ => .of_pure trivial
  unfold resultColumn
  refine .bind view_mem fun view seen => .ite ?_ (.ite ?_ ?_)
  · exact .skip fun _ => .of_pure trivial
  · refine .skip fun table => .skip fun span => ?_
    exact .of_pure trivial
  · split
    · next at_ =>
      refine .skip fun table => .skip fun span => .of_pure ?_
      -- two asterisks are one symbol with the drift extensions only
      have doubled : view.third.isSymbol .doubleStar = true := (Bool.and_eq_true_iff.mp at_).2
      rw [Token.isSymbol_eq, TokenKind.isSymbol_iff] at doubled
      exact tokenize_doubleStar seen.2 doubled
    · refine .ite ?_ expressionColumn_isWritten
      refine .skip fun drift => ?_
      exact .ite nested expressionColumn_isWritten

/-- The code that a constraint of a column holds can be written.

**Proof sketch.** By the keyword that is next. Only `MAPPED BY` yields code, which
`mappedBy_isWritten` is about. Every other branch yields another kind of constraint. -/
lemma columnConstraintKind_isWritten (start : Span) :
    Gives (.within dialect source) (columnConstraintKind rules start) fun kind =>
      ∀ part ∈ kind, ∀ code, part = .mappedBy code → IsDart dialect.isDrift code := by
  have other {parser : Parser ColumnConstraintKind}
      (other : parser.Yields fun kind => ∀ code, kind ≠ .mappedBy code) :
      Gives (.within dialect source) (do return some (← parser)) fun kind =>
        ∀ part ∈ kind, ∀ code, part = .mappedBy code → IsDart dialect.isDrift code := by
    have gives : Gives (.within dialect source) parser fun kind => ∀ code, kind ≠ .mappedBy code :=
      fun _ _ _ _ run _ => other run
    exact gives.bind fun kind other => .of_pure (by simp [other])
  have plain {parser : Parser ColumnConstraintKind} (plain : parser.Yields (·.isPlain = true)) :=
    other (plain.imp fun _ => ColumnConstraintKind.ne_mappedBy_of_isPlain)
  have generated (always : Bool) :
      (generatedBy rules start always).Yields fun kind => ∀ code, kind ≠ .mappedBy code := by
    refine .bind fun _ => ?_
    refine .bind fun expr => ?_
    exact .bind fun _ => .of_pure (by simp)
  unfold columnConstraintKind
  refine .skip fun view => ?_
  split
  · exact plain columnPrimaryKey_isPlain
  · exact plain notNull_isPlain
  · exact .skip fun _ => .of_pure (by simp)
  · refine .skip fun _ => .skip fun onConflict => ?_
    exact .of_pure (by simp)
  · refine .skip fun _ => .skip fun expr => ?_
    exact .of_pure (by simp)
  · refine .skip fun _ => .skip fun operand => ?_
    exact .of_pure (by simp)
  · refine .skip fun _ => .skip fun name => ?_
    exact .of_pure (by simp)
  · exact .skip fun _ => .of_pure (by simp)
  · refine .ite (.skip fun _ => .skip fun _ => .skip fun _ => ?_) (.of_pure (by simp))
    exact other (generated _)
  · exact .ite (.skip fun _ => other (generated _)) (plain dartName_isPlain)
  · refine .ite (.bind mappedBy_isWritten fun code first => .of_pure ?_) (.of_pure (by simp))
    rintro _ ⟨rfl⟩ _ ⟨rfl⟩
    exact first
  · exact .ite (plain jsonKey_isPlain) (.of_pure (by simp))
  · exact .of_pure (by simp)

/-- A further constraint of a column can be written. -/
lemma nextColumnConstraint_isWritten :
    Gives (.within dialect source) (nextColumnConstraint rules) fun next =>
      ∀ constraint ∈ next, (Node.columnConstraint constraint).IsWritten dialect.isDrift := by
  unfold nextColumnConstraint
  refine .skip fun start => .skip fun name => ?_
  refine .bind (columnConstraintKind_isWritten start) fun kind first => ?_
  split
  · exact .skip fun span => .of_pure (by simpa [Node.IsWritten] using first)
  · exact .ite (.of_unexpected _) (.of_pure (by simp))

/-! ## Statements -/

/-- A statement about rows can be written, as it holds no token of its own. -/
lemma dataStatement_isWritten (expected : String) :
    Gives (.within dialect source) (dataStatement rules expected) fun statement =>
      statement.node.IsWritten dialect.isDrift := by
  have insertion (commonTables : Option WithClause) (start : Span) :
      Gives (.within dialect source) (Grammar.insert rules commonTables start) fun insert =>
        (Node.insert insert).IsWritten dialect.isDrift := by
    unfold Grammar.insert
    refine .skip fun mode => .skip fun _ => .skip fun ⟨schema, table⟩ => .skip fun aliasName => ?_
    refine .skip fun columns => ?_
    refine .bind insertSource_isWritten fun source first => ?_
    refine .skip fun upserts => .skip fun returning => .skip fun span => ?_
    exact .of_pure first
  have after (commonTables : Option WithClause) (start : Span) (expected : String) :
      Gives (.within dialect source) (dataStatementAfter rules commonTables start expected)
        fun statement => statement.node.IsWritten dialect.isDrift := by
    unfold dataStatementAfter
    refine .skip fun view => .ite ?_ (.ite ?_ (.ite ?_ (.ite ?_ (.of_unexpected _))))
    · exact .skip fun query => .of_pure trivial
    · exact .bind (insertion _ _) fun insert first => .of_pure first
    · exact .skip fun update => .of_pure trivial
    · exact .skip fun delete => .of_pure trivial
  unfold dataStatement
  refine .skip fun start => .skip fun isWith => .ite ?_ (after _ _ _)
  refine .skip fun clause => ?_
  exact after _ _ _

/-- The arguments of virtual tables are kept as they are.

**Proof sketch.** Only a virtual table holds verbatim texts: its arguments are those that were cut
out of the source (`rawArguments_verbatim`). No other statement holds a token of its own. -/
lemma statement_isWritten :
    Gives (.within dialect source) (statement rules) fun statement =>
      statement.node.IsWritten dialect.isDrift := by
  have virtual (start : Span) : Gives (.within dialect source) (createVirtualTable rules start)
      fun table => (Node.createVirtualTable table).IsWritten dialect.isDrift := by
    unfold createVirtualTable
    refine .skip fun _ => .skip fun ifNotExists => .skip fun ⟨schema, name⟩ => .skip fun _ => ?_
    refine .skip fun module => ?_
    refine .bind (.whenever (rawArguments_verbatim _)) fun arguments first => ?_
    refine .skip fun span => .of_pure fun argument mem => ?_
    cases arguments with
    | none => cases mem
    | some arguments => exact first arguments rfl argument mem
  have creates (start place : Span) (temporary : Bool) :
      Gives (.within dialect source) (created rules start place temporary) fun statement =>
        statement.node.IsWritten dialect.isDrift := by
    unfold created
    refine .skip fun token => ?_
    split
    · exact .skip fun table => .of_pure trivial
    · exact .skip fun view => .of_pure trivial
    · exact .skip fun trigger => .of_pure trivial
    · refine .ite (.of_invalid _ _) ?_
      exact .bind (virtual start) fun table first => .of_pure first
    · refine .ite (.of_invalid _ _) ?_
      exact .skip fun index => .of_pure trivial
    · refine .ite (.of_invalid _ _) ?_
      exact .skip fun index => .of_pure trivial
    · exact .of_unexpected _
  unfold statement
  refine .skip fun create => .ite ?_
    (.bind (dataStatement_isWritten _) fun _ first => .of_pure first)
  rw [creation_eq]
  refine .skip fun start => .skip fun place => .skip fun temp => .ite (creates _ _ _) ?_
  refine .skip fun temporary => ?_
  exact creates _ _ _

/-- A parameter of a statement can be written: its variable has been read from a token. -/
lemma statementParameter_isWritten :
    Gives (.within dialect source) (statementParameter rules) fun parameter =>
      (Node.statementParameter parameter).IsWritten dialect.isDrift := by
  unfold statementParameter
  refine .bind view_mem fun view seen => ?_
  split
  · next name default =>
    have dollar : view.dollarName? = some name := by
      unfold atDefaultValue at default
      split at default
      · exact default
      · cases default
    unfold defaultValue
    refine .skip fun _ => .skip fun _ => .skip fun _ => .skip fun value => .skip fun span => ?_
    exact .of_pure ((tokenize_isWritten seen.1).dollar dollar)
  · unfold typedVariable
    refine .skip fun start => .skip fun required => ?_
    refine .bind current_isWritten fun token isWritten => ?_
    split
    · next which kind =>
      refine .skip fun _ => .skip fun parts => .skip fun span => ?_
      exact .of_pure (isWritten.variable kind)
    · exact .of_unexpected _

end Grammar

open Grammar in
/-- **Nodes that have been read can be written.** -/
theorem Node.IsRead.isWritten {dialect : Dialect} {source : String} {node : Node}
    (read : node.IsRead (.within dialect source)) : node.IsWritten dialect.isDrift := by
  cases read with
  | expr chain => exact chain.isWritten
  | resultColumn made =>
    exact made.of_gives fun _ _ => resultColumn_isWritten
  | orderingItem made =>
    exact made.of_gives fun _ _ => orderingItem_isWritten
  | limit made =>
    exact made.of_gives fun _ _ => limit_isWritten
  | insert made =>
    exact made.of_gives fun _ _ => dataStatement_isWritten _
  | columnConstraint made =>
    exact (made.of_gives fun _ _ => nextColumnConstraint_isWritten) _ rfl
  | typeName made =>
    exact made.of_gives fun _ _ => typeName_verbatim _
  | createVirtualTable made =>
    exact made.of_gives fun _ _ => statement_isWritten
  | statementParameter made =>
    exact made.of_gives fun _ _ => statementParameter_isWritten
  -- the others hold no such values
  | _ => trivial

end SqlTree
