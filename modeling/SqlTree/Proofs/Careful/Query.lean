import SqlTree.Proofs.Careful.Expr

set_option autoImplicit false

/-!
# Careful parsers of queries

The parsers of queries and of table references are careful, if the rules for the parts are. A
further join or member of a query is left out at the end of input, and at a separator as well.

## Main results

* `SqlTree.Grammar.query_careful`, `SqlTree.Grammar.joinedTables_careful` — queries and table
  references over careful rules.
* `SqlTree.Grammar.rules_careful` — the rules are careful, up to every depth.
-/

namespace SqlTree.Grammar

open SqlTree.Parser

variable {S : Surroundings} {cursor : Cursor} {rules : Rules}

/-! ## Common tables -/

/-- The hint whether a common table is materialized is careful.

**Proof sketch.** At the end of input and at a separator there is no hint, and the start that was
looked up is not used. With a hint the feature is required at the first token, which begins a token
(`demanded`). Whether `NOT MATERIALIZED` is next is asked before `MATERIALIZED`, in each of the two
cases the keywords are taken that were seen, and without them only `MATERIALIZED` can be taken. -/
lemma materialization_careful : Careful S materialization fun _ => True := by
  unfold materialization
  refine .hereIdle (fun start => ?_) fun start begins => ?_
  · intro dialect cursor stops
    rw [run_sees_bind, run_eatKeyword_bind, stops.atKeywords, stops.atKeyword]
    rfl
  · have demanded (hint : Option Bool) : Careful S (do
        if hint.isSome then
          require .materializedTables "MATERIALIZED hints" (← spanFrom start)
        return hint) fun _ => True := by
      refine .ite ?_ (.of_pure trivial)
      refine .bind (.spanFrom_begins begins) fun span begins => ?_
      refine .skip (.require begins) fun _ => ?_
      exact .of_pure trivial
    -- whether `MATERIALIZED` is next is asked first, and is not the case at `NOT`
    refine .sees (.atKeywords _ _) fun cursor reached => ?_
    cases at_ : cursor.view.atKeywords .NOT .MATERIALIZED with
    | false =>
      refine Careful.skip (.eatKeyword _) (fun seen => ?_) reached
      cases seen with
      | false => exact demanded none
      | true => exact demanded (some true)
    | true =>
      refine .eatKeyword_of_not reached ?_ (.keywords reached at_ (demanded (some false)))
      have first := (Bool.and_eq_true_iff.mp at_).1
      rw [Token.isKeyword_eq, TokenKind.isKeyword_iff] at first
      simp [View.atKeyword, first]

section

variable (careful : rules.Careful S)

include careful

/-- A common table is careful. -/
lemma commonTable_careful : Careful S (commonTable rules) fun _ => True := by
  unfold commonTable
  refine .here (fun _ => .bind .identifier) fun start _ => ?_
  refine .skip .identifier fun name => ?_
  refine .skip optionalColumnNames_careful fun columns => ?_
  refine .skip (.expectKeyword _) fun _ => ?_
  refine .skip materialization_careful fun materialized => ?_
  refine .skip (.parenthesized careful.query) fun query => ?_
  exact .returns

/-- `WITH` is careful. -/
lemma withClause_careful : Careful S (withClause rules) fun _ => True := by
  unfold withClause
  refine .skip (.expectKeyword _) fun start => ?_
  refine .skip (.eatKeyword _) fun recursive => ?_
  refine .skip (.commaSeparated (commonTable_careful careful) _) fun tables => ?_
  exact .returns

/-! ## Result columns -/

omit careful in
/-- Code in backticks is careful. -/
lemma dartCode_careful : Careful S dartCode fun _ => True := by
  refine .current (.current fun token kind => ?_) fun cursor reached => ?_
  · rw [kind]
    exact .of_unexpected _
  · split
    · next kind => exact .take reached (.of_kind kind rfl) fun _ _ => .of_pure trivial
    · exact .of_unexpected _

omit careful in
/-- `MAPPED BY` is careful where it is next: the drift extensions are required at its first word. -/
lemma mappedBy_careful (reached : S.origin.Reaches cursor)
    (at_ : cursor.view.atKeywords .MAPPED .BY = true) :
    CarefulOn S mappedBy (fun _ => True) cursor := by
  unfold mappedBy
  exact .demand reached (.of_isKeyword (Bool.and_eq_true_iff.mp at_).1) <|
    .keywords reached at_ dartCode_careful

omit careful in
/-- `MAPPED BY` that may be left out is careful. -/
lemma optionalMappedBy_careful : Careful S optionalMappedBy fun _ => True :=
  .whenSeen (.atKeywords _ _) fun _ => mappedBy_careful

omit careful in
/-- The name before a star is careful where the name, the dot and the star are next: all three
tokens have been seen. -/
lemma tableOfStar_careful {kind : Symbol} (reached : S.origin.Reaches cursor)
    (at_ : atTableStar kind cursor.view = true) :
    CarefulOn S tableOfStar (fun _ => True) cursor := by
  simp only [atTableStar, Bool.and_eq_true] at at_
  obtain ⟨⟨first, second⟩, third⟩ := at_
  have second' : cursor.advance.current = cursor.view.second := Cursor.peek_advance 0
  have third' : cursor.advance.view.second = cursor.view.third := Cursor.peek_advance 1
  refine .identifier reached first (.advanceTwice
    (reached.advance (Token.IsProper.of_isIdentifierLike first).sound) ?_ ?_ (.of_pure trivial))
  · rw [second']
    exact .of_isSymbol second
  · rw [third']
    exact .of_isSymbol third

/-- A nested query is careful where one is next. -/
lemma nestedQuery_careful (reached : S.origin.Reaches cursor)
    (at_ : atNestedQuery cursor.view = true) :
    CarefulOn S (nestedQuery rules) (fun _ => True) cursor := by
  have proper : cursor.current.IsProper := by
    simp only [atNestedQuery, Bool.and_eq_true] at at_
    split at at_
    · next kind => exact .of_kind kind rfl
    · exact absurd at_.1.1 Bool.false_ne_true
  refine .here (Cursor.ahead_of_proper (reached.ends S.ends) proper) ?_
  refine .take reached proper fun _ _ => ?_
  refine .skip (.parenthesized careful.query) fun query => ?_
  refine .skip optionalAlias_careful fun aliasName => ?_
  exact .returns

/-- A result column that is an expression is careful, with `MAPPED BY` before or after its alias. -/
lemma expressionColumn_careful : Careful S (expressionColumn rules) fun _ => True := by
  refine .here (fun _ => .bind (careful.solidOperators 0)) fun start _ => ?_
  refine .skip (expr_careful careful) fun expr => ?_
  refine .skip optionalMappedBy_careful fun code => ?_
  cases code with
  | some code => exact .skip optionalAlias_careful fun _ => .returns
  | none =>
    refine .skip optionalAlias_careful fun aliasName => ?_
    refine .skip optionalMappedBy_careful fun code => ?_
    exact .returns

/-- A name before a query is no call of a function: no argument starts like a query. -/
lemma expressionColumn_never (at_ : atNestedQuery cursor.view = true) :
    (expressionColumn rules).NeverAt cursor := by
  intro dialect value stop run
  unfold expressionColumn at run
  rw [run_here_bind] at run
  obtain ⟨expr, middle, run, -, -⟩ := accepted_bind run
  have arguments := ((careful.sound dialect).expr run).arguments
  simp only [atNestedQuery, Bool.and_eq_true, List.any_cons, List.any_nil, Bool.or_false,
    Bool.or_eq_true, Token.isKeyword_eq, Token.isSymbol_eq, TokenKind.isKeyword_iff,
    TokenKind.isSymbol_iff] at at_
  obtain ⟨⟨first, second⟩, third⟩ := at_
  have bare : (cursor.peek 0).kind.isBare = true := by
    split at first
    · next kind => rw [show (cursor.peek 0).kind = _ from kind]; rfl
    · exact absurd first Bool.false_ne_true
  obtain ⟨notSelect, notWith⟩ := arguments bare second
  exact third.elim notSelect notWith

omit careful in
/-- Whether a name, a dot and a star are next does not depend on what follows the source: each token
is only looked at where the one before it is inside. -/
lemma atTableStar_before (kind : Symbol) (other : ¬ (TokenKind.symbol kind).IsSeparator)
    {view longer : View} (near : view.Nears longer) (inside : view.current.kind ≠ .endOfInput) :
    atTableStar kind longer = atTableStar kind view := by
  unfold atTableStar
  rw [near.atIdentifier, near.second_isSymbol _ (by simp) inside]
  cases second : view.second.isSymbol .dot with
  | false => simp
  | true => rw [near.third_isSymbol _ other inside (Token.IsProper.of_isSymbol second).inside]

omit careful in
/-- Whether a nested query is next does not depend on what follows the source. -/
lemma atNestedQuery_before {view longer : View} (near : view.Nears longer)
    (same : longer.current = view.current) (inside : view.current.kind ≠ .endOfInput) :
    atNestedQuery longer = atNestedQuery view := by
  unfold atNestedQuery
  rw [same, near.second_isSymbol _ (by simp) inside]
  cases second : view.second.isSymbol .leftParen with
  | false => simp
  | true =>
    have inside' := (Token.IsProper.of_isSymbol second).inside
    simp only [List.any_cons, List.any_nil, near.third_isKeyword inside inside']

omit careful in
/-- At the end of input no nested query is next. -/
lemma atNestedQuery_end {view : View} (kind : view.current.kind = .endOfInput) :
    atNestedQuery view = false := by
  simp [atNestedQuery, kind]

/-- A result column is careful.

**Proof sketch.** At the end of input it is an expression, which accepts nothing. Otherwise what
decides is the same in a longer source (`atTableStar_before`, `atNestedQuery_before`). A star and a
name with a star are taken after they were seen. Where a nested query is next, the dialect decides,
but plain SQL accepts nothing there (`expressionColumn_never`), so asking for the drift extensions
is in order. -/
lemma resultColumn_careful : Careful S (resultColumn rules) fun _ => True := by
  refine .view (.view fun view kind => ?_) (fun _ view longer near same inside => ?_)
    fun cursor reached => ?_
  · simp only [View.atSymbol_end kind, atTableStar, View.atIdentifier_end kind,
      atNestedQuery_end kind, Bool.false_and, Bool.false_eq_true, if_false]
    exact .skip fun _ => .bind (careful.solidOperators 0)
  · simp only [near.atSymbol .star (by simp), atTableStar_before .star (by simp) near inside,
      atTableStar_before .doubleStar (by simp) near inside, atNestedQuery_before near same inside,
      same]
  · dsimp only
    split
    · next at_ => exact .take reached (.of_isSymbol at_) fun _ _ => .of_pure trivial
    split
    · next at_ => exact (tableOfStar_careful reached at_).bind reached fun _ _ => .returns
    split
    · next at_ => exact (tableOfStar_careful reached at_).bind reached fun _ _ => .returns
    split
    · next at_ =>
      exact .isDrift (.inr (expressionColumn_never careful at_)) fun _ => .ite
        (nestedQuery_careful careful reached at_) (expressionColumn_careful careful reached)
    · exact expressionColumn_careful careful reached

/-- A list of result columns is careful. -/
lemma resultColumns_careful : Careful S (resultColumns rules) fun _ => True :=
  .commaSeparated (resultColumn_careful careful) _

/-! ## Tables -/

omit careful in
/-- `INDEXED BY` and `NOT INDEXED` are careful. -/
lemma optionalIndexing_careful : Careful S optionalIndexing fun _ => True := by
  unfold optionalIndexing
  refine .skip (.eatKeyword _) fun isIndexed => .ite ?_ ?_
  · refine .skip (.expectKeyword _) fun _ => ?_
    exact .skip .identifier fun _ => .of_pure trivial
  · exact .ifSees (.atKeywords _ _) (fun _ reached at_ => .keywords reached at_ (.of_pure trivial))
      (.of_pure trivial)

omit careful in
/-- A name accepts nothing at the end of input. -/
lemma qualifiedName_solid : Solid qualifiedName :=
  .bind .identifier

/-- A table accepts nothing at the end of input. -/
lemma singleTable_solid : Solid (singleTable rules) := by
  unfold singleTable
  refine .skip fun start => .skip fun isLeftParen => .ite ?_ (.bind qualifiedName_solid)
  refine .skip fun isQuery => ?_
  exact .ite (.bind careful.solidQuery) (.bind careful.solidTableRef)

/-- Where the input ends no list of arguments is left out, so it does not matter that a parenthesis
may follow. -/
lemma tableArguments_careful :
    Careful S (whenever (!·.atSymbol .rightParen) rules.exprs) fun _ => True := by
  refine .seesSolid (.sees fun view kind => ?_)
    (fun _ _ same => congrArg Bool.not (View.atSymbol_congr same)) fun _ reached => ?_
  · rw [View.atSymbol_end kind]
    exact .bind (exprs_solid careful)
  · exact .ite (Careful.skip (exprs_careful careful) (fun _ => .of_pure trivial) reached)
      (Careful.of_pure trivial reached)

/-- A single table is careful: a subquery or a table reference in parentheses, a table function, or
a table. -/
lemma singleTable_careful : Careful S (singleTable rules) fun _ => True := by
  refine .here (fun _ => .skip fun _ => .ite ?_ ?_) fun _ _ => .skip (.eatSymbol (by simp))
    fun _ => .ite ?_ ?_
  · exact .skip fun _ => .ite (.bind careful.solidQuery) (.bind careful.solidTableRef)
  · exact .bind qualifiedName_solid
  · refine .ifSees .atQuery (fun _ reached _ => ?_) ?_
    · exact Careful.skip careful.query (fun _ => .skip (.expectSymbol _) fun _ =>
        .skip optionalAlias_careful fun _ => .returns) reached
    · refine .skip careful.tableRef fun inner => ?_
      refine .skip (.expectSymbol _) fun _ => ?_
      exact .returns
  · refine .skip qualifiedName_careful fun ⟨schema, name⟩ => ?_
    refine .skip (.eatSymbol (by simp)) fun isLeftParen => .ite ?_ ?_
    · refine .skip (tableArguments_careful careful) fun arguments => ?_
      refine .skip (.expectSymbol _) fun _ => ?_
      refine .skip optionalAlias_careful fun aliasName => ?_
      exact .returns
    · refine .skip optionalAlias_careful fun aliasName => ?_
      refine .skip optionalIndexing_careful fun indexing => ?_
      exact .returns

omit careful in
/-- The kind of a join is careful. What only some dialects have, `RIGHT` and `FULL`, is required at
the keyword. -/
lemma joinKind_careful : Careful S joinKind fun _ => True := by
  refine .current (.current fun token kind => ?_) fun cursor reached => ?_
  · rw [kind]
    exact .of_unexpected _
  · split
    · exact Careful.of_pure trivial reached
    · next kind => exact .take reached (.of_kind kind rfl) fun _ _ => .of_pure trivial
    · next kind => exact .take reached (.of_kind kind rfl) fun _ _ => .of_pure trivial
    · next kind =>
      refine .take reached (.of_kind kind rfl) fun _ _ => ?_
      refine .skip (.eatKeyword _) fun _ => ?_
      exact .of_pure trivial
    · next kind =>
      refine .require reached.begins ?_
      refine .take reached (.of_kind kind rfl) fun _ _ => ?_
      refine .skip (.eatKeyword _) fun _ => ?_
      exact .of_pure trivial
    · next kind =>
      refine .require reached.begins ?_
      refine .take reached (.of_kind kind rfl) fun _ _ => ?_
      refine .skip (.eatKeyword _) fun _ => ?_
      exact .of_pure trivial
    · exact .of_unexpected _

omit careful in
/-- A join operator that may be left out is careful. -/
lemma optionalJoinOperator_careful : Careful S optionalJoinOperator fun _ => True := by
  unfold optionalJoinOperator
  refine .skip (.eatSymbol (by simp)) fun isComma => .ite (.of_pure trivial) ?_
  refine .ifSees (.atAnyKeyword _) (fun cursor reached _ => ?_) (.of_pure trivial)
  refine Careful.skip (.eatKeyword _) (fun natural => ?_) reached
  refine .skip joinKind_careful fun kind => ?_
  exact .skip (.expectKeyword _) fun _ => .of_pure trivial

omit careful in
/-- At the end of input and at a separator there is no join operator. -/
lemma optionalJoinOperator_idle : Idle optionalJoinOperator :=
  .eatComma <| .ifSees (fun view stops => by simp [View.atAnyKeyword, stops.atKeyword]) .of_none

/-- `ON` and `USING` are careful. -/
lemma optionalJoinConstraint_careful : Careful S (optionalJoinConstraint rules) fun _ => True := by
  unfold optionalJoinConstraint
  refine .skip (.eatKeyword _) fun isOn => .ite ?_ ?_
  · exact .skip (expr_careful careful) fun _ => .of_pure trivial
  · refine .skip (.eatKeyword _) fun isUsing => .ite ?_ (.of_pure trivial)
    exact .skip columnNames_careful fun _ => .of_pure trivial

/-- A step of the loop over joins is careful. Where no join follows, the start that was looked up is
not used. -/
lemma nextJoin_careful (left : TableRef) : Careful S (nextJoin rules left) fun _ => True := by
  refine .hereIdle (fun start => .bind optionalJoinOperator_idle .of_none) fun start _ => ?_
  refine .skip optionalJoinOperator_careful fun operator => ?_
  cases operator with
  | none => exact .of_pure trivial
  | some operator =>
    refine .skip (singleTable_careful careful) fun table => ?_
    refine .skip (optionalJoinConstraint_careful careful) fun constraint => ?_
    exact .returns

/-- **Table references are careful.** -/
lemma joinedTables_careful : Careful S (joinedTables rules) fun _ => True :=
  .skip (singleTable_careful careful) fun first => .iterate (nextJoin_careful careful) _ first

/-! ## Members of a query -/

/-- `WINDOW` and the windows after it are careful where the keyword is next: the required feature is
complained about there. -/
lemma namedWindows_careful (reached : S.origin.Reaches cursor)
    (at_ : cursor.view.atKeyword .WINDOW = true) :
    CarefulOn S (namedWindows rules) (fun _ => True) cursor := by
  have window : Careful S (namedWindow rules) fun _ => True := by
    refine .here (fun _ => .bind .identifier) fun start _ => ?_
    refine .skip .identifier fun name => ?_
    refine .skip (.expectKeyword _) fun _ => ?_
    refine .skip (windowDefinition_careful careful) fun definition => ?_
    exact .returns
  unfold namedWindows
  refine .demand reached (.of_isKeyword at_) ?_
  refine .take reached (.of_isKeyword at_) fun _ _ => ?_
  exact .commaSeparated window _

omit careful in
/-- `DISTINCT` and `ALL` are careful. -/
lemma distinctRows_careful : Careful S distinctRows fun _ => True := by
  unfold distinctRows
  refine .skip (.eatKeyword _) fun isDistinct => .ite (.of_pure trivial) ?_
  refine .skip (.eatKeyword _) fun _ => ?_
  exact .of_pure trivial

/-- `SELECT` is careful, clause by clause. -/
lemma selectClause_careful : Careful S (selectClause rules) fun _ => True := by
  have expr := expr_careful careful
  refine .skip (.expectKeyword _) fun _ => ?_
  refine .skip distinctRows_careful fun distinct => ?_
  refine .skip (resultColumns_careful careful) fun columns => ?_
  refine .skip (.afterKeyword careful.tableRef) fun source => ?_
  refine .skip (.afterKeyword expr) fun filter => ?_
  refine .skip (.afterKeyword (.skip (.expectKeyword _) fun _ => exprs_careful careful))
    fun groupBy => ?_
  refine .skip (.afterKeyword expr) fun having => ?_
  refine .skip (.whenSeen (.atKeyword _) fun _ => namedWindows_careful careful) fun windows => ?_
  exact .returns

/-- `VALUES` is careful. -/
lemma valuesClause_careful : Careful S (valuesClause rules) fun _ => True := by
  unfold valuesClause
  refine .skip (.expectKeyword _) fun start => ?_
  refine .skip (.commaSeparated (.parenthesized (exprs_careful careful)) _) fun rows => ?_
  exact .returns

omit careful in
/-- A member of a query accepts nothing at the end of input. -/
lemma queryCore_solid : Solid (queryCore rules) :=
  .current fun token kind => by
    rw [kind]
    exact .of_unexpected _

/-- A member of a query is careful: its first keyword says which one it is. -/
lemma queryCore_careful : Careful S (queryCore rules) fun _ => True := by
  refine .current queryCore_solid fun cursor reached => ?_
  split
  · exact Careful.skip (selectClause_careful careful) (fun _ => .of_pure trivial) reached
  · exact Careful.skip (valuesClause_careful careful) (fun _ => .of_pure trivial) reached
  · exact .of_unexpected _

omit careful in
/-- A compound operator that may be left out is careful. -/
lemma optionalCompoundOperator_careful : Careful S optionalCompoundOperator fun _ => True := by
  unfold optionalCompoundOperator
  refine .skip (.eatKeyword _) fun isUnion => .ite ?_ ?_
  · refine .skip (.eatKeyword _) fun isAll => ?_
    exact .ite (.of_pure trivial) (.of_pure trivial)
  · refine .skip (.eatKeyword _) fun isIntersect => .ite (.of_pure trivial) ?_
    refine .skip (.eatKeyword _) fun isExcept => ?_
    exact .ite (.of_pure trivial) (.of_pure trivial)

omit careful in
/-- At the end of input and at a separator there is no compound operator. -/
lemma optionalCompoundOperator_idle : Idle optionalCompoundOperator :=
  .eatKeyword <| .eatKeyword <| .eatKeyword .of_none

/-- A step of the loop over the members of a query is careful. Where no operator follows, the start
that was looked up is not used. -/
lemma nextCompound_careful : Careful S (nextCompound rules) fun _ => True := by
  refine .hereIdle (fun start => .bind optionalCompoundOperator_idle .of_none) fun start _ => ?_
  refine .skip optionalCompoundOperator_careful fun operator => ?_
  cases operator with
  | none => exact .of_pure trivial
  | some operator => exact .skip (queryCore_careful careful) fun _ => .returns

/-! ## Limits -/

/-- The expressions of a limit are careful. -/
lemma limitExpressions_careful : Careful S (limitExpressions rules) fun _ => True := by
  unfold limitExpressions
  refine .skip (expr_careful careful) fun first => ?_
  refine .skip (.eatKeyword _) fun isOffset => .ite ?_ ?_
  · exact .skip (expr_careful careful) fun _ => .of_pure trivial
  · refine .skip (.eatSymbol (by simp)) fun isComma => .ite ?_ (.of_pure trivial)
    exact .skip (expr_careful careful) fun _ => .of_pure trivial

/-- A limit is careful. As for ordering items, the drift extensions are only asked for at a dollar
name, and in plain SQL its expressions are read. -/
lemma limit_careful : Careful S (limit rules) fun _ => True := by
  have expressions (start : Span) : Careful S (do
      let kind ← limitExpressions rules
      return (⟨kind, ← spanFrom start⟩ : Limit)) fun _ => True :=
    .skip (limitExpressions_careful careful) fun _ => .returns
  have solid (start : Span) : Solid (do
      let kind ← limitExpressions rules
      return (⟨kind, ← spanFrom start⟩ : Limit)) :=
    .bind (.bind (careful.solidOperators 0))
  refine .skip (.expectKeyword _) fun start => ?_
  refine .view (.view fun view kind => ?_) (fun _ view longer near same inside => ?_)
    fun cursor reached => ?_
  · rw [atLonePlaceholder_end kind]
    exact solid start
  · rw [atLonePlaceholder_before near same inside fun token token' near => ?_]
    simp [modifiesLimit, near.isKeyword, near.isSymbol]
  · split
    · next name lone =>
      have dollar := dollarName_of_lone lone
      have proper : cursor.current.IsProper := .of_kind (kind_of_dollarName dollar) rfl
      refine .isDrift (.inl (by simp [dollar])) fun drift => .ite ?_ (expressions start reached)
      refine .take reached proper fun _ _ => ?_
      exact .returns
    · exact expressions start reached

/-! ## Queries -/

/-- A query after its common tables is careful. -/
lemma queryAfter_careful (commonTables : Option WithClause) (start : Span) :
    Careful S (queryAfter rules commonTables start) fun _ => True := by
  unfold queryAfter
  refine .skip (queryCore_careful careful) fun core => ?_
  refine .skip (.many (nextCompound_careful careful) _) fun compounds => ?_
  refine .skip (optionalOrderBy_careful careful) fun order => ?_
  refine .skip (.whenever (.atKeyword _) (limit_careful careful)) fun limit => ?_
  exact .returns

omit careful in
/-- A query after its common tables accepts nothing at the end of input. -/
lemma queryAfter_solid (commonTables : Option WithClause) (start : Span) :
    Solid (queryAfter rules commonTables start) :=
  .bind queryCore_solid

/-- **Queries are careful.** -/
lemma query_careful : Careful S (query rules) fun _ => True := by
  unfold query
  refine .here (fun start => .skip fun _ => queryAfter_solid _ start) fun start _ => ?_
  refine .skip (.whenever (.atKeyword _) (withClause_careful careful)) fun commonTables => ?_
  exact queryAfter_careful careful _ start

end

/-! ## The rules -/

/-- **The rules are careful**, up to every depth of nesting. -/
theorem rules_careful (S : Surroundings) (limit depth : Nat) :
    (Grammar.rules limit depth).Careful S := by
  induction depth with
  | zero =>
    exact ⟨fun dialect => rules_sound dialect limit 0, fun _ => .of_exhausted, .of_exhausted,
      .of_exhausted, fun _ => .of_exhausted, .of_exhausted, .of_exhausted⟩
  | succ depth ih =>
    exact {
      sound := fun dialect => rules_sound dialect limit (depth + 1)
      operators := expression_careful ih
      query := query_careful ih
      tableRef := joinedTables_careful ih
      solidOperators := expression_solid
      solidQuery := .skip fun _ => .skip fun _ => queryAfter_solid _ _
      solidTableRef := .bind (singleTable_solid ih) }

end SqlTree.Grammar
