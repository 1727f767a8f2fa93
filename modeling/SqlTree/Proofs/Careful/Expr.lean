import SqlTree.Proofs.Careful.Steps
import SqlTree.Proofs.Starts

set_option autoImplicit false

/-!
# Careful parsers of expressions

The parsers of expressions are careful, if the rules for the parts are. Each token that they take
they have seen before, and each complaint is about the next token or about a place behind.

## Main definitions

* `SqlTree.Grammar.Rules.Careful` — the rules are careful, and accept nothing at the end of input.

## Main results

* `SqlTree.Grammar.expression_careful` — expressions over careful rules.
-/

namespace SqlTree.Grammar

open SqlTree.Parser

variable {S : Surroundings} {cursor : Cursor} {rules : Rules}

/-- The rules are careful, and accept nothing at the end of input. -/
structure Rules.Careful (S : Surroundings) (rules : Rules) : Prop where
  sound : ∀ dialect, rules.Sound dialect
  operators : ∀ least, Parser.Careful S (rules.operators least) fun _ => True
  query : Parser.Careful S rules.query fun _ => True
  tableRef : Parser.Careful S rules.tableRef fun _ => True
  solidOperators : ∀ least, Solid (rules.operators least)
  solidQuery : Solid rules.query
  solidTableRef : Solid rules.tableRef

section

variable (careful : rules.Careful S)

include careful

/-- An expression over careful rules is careful: it is an operator chain of any power. -/
lemma expr_careful : Careful S rules.expr fun _ => True :=
  careful.operators 0

/-- A list of expressions is careful. -/
lemma exprs_careful : Careful S rules.exprs fun _ => True :=
  .commaSeparated (expr_careful careful) _

/-- A list of expressions accepts nothing at the end of input, as its first one does not. -/
lemma exprs_solid : Solid rules.exprs :=
  .commaSeparated (careful.solidOperators 0) _

omit careful in
/-- Column names in parentheses are careful. -/
lemma columnNames_careful : Careful S rules.columnNames fun _ => True :=
  .parenthesized (.commaSeparated .identifier _)

omit careful in
/-- Column names in parentheses that may be left out are careful. -/
lemma optionalColumnNames_careful : Careful S rules.optionalColumnNames fun _ => True :=
  .skip (.whenever (.atSymbol (by simp)) columnNames_careful) fun _ => .of_pure trivial

end

/-! ## Names -/

/-- A name that may be qualified is careful: its second part is only asked for after a dot. -/
lemma qualifiedName_careful : Careful S qualifiedName fun _ => True := by
  unfold qualifiedName
  refine .skip .identifier fun first => ?_
  refine .skip (.eatSymbol (by simp)) fun isDot => .ite ?_ (.of_pure trivial)
  exact .skip .identifier fun _ => .of_pure trivial

/-- A name after `AS` is careful. -/
lemma asName_careful : Careful S asName fun _ => True :=
  .afterKeyword .identifier

/-- An alias is careful. The end of input and the separators are no names, so none of them starts an
alias without `AS`. -/
lemma optionalAlias_careful : Careful S optionalAlias fun _ => True := by
  unfold optionalAlias
  refine .skip (.eatKeyword _) fun _ => .ite
    (.skip .identifier fun _ => .of_pure trivial) ?_
  refine .lookCurrent (pure none) (fun token stops => ?_) fun cursor reached => ?_
  · obtain kind | kind | kind := stops <;> rw [kind]
  · split
    · next name kind =>
      exact .take reached (.of_kind kind rfl) fun _ _ => .of_pure trivial
    · exact Careful.of_pure trivial reached

/-! ## Types -/

/-- A token of raw arguments, and what follows it. After a comma the input may end, but then the
closing parenthesis is missing.

**Proof sketch.** By the kind of the next token. At the end of input and at a malformed token the
missing parenthesis is reported. Any other token is taken, and what follows is careful by `rest`.
Where a comma or the last parenthesis ends an argument, its text is read from the start of a token
that was reached before (`textFrom`). After a comma the next argument starts at the next token,
whose span is only used if more is accepted (`hereSolid`). -/
lemma rawArgumentStep_careful {α : Type} {good : α → Prop} {next : Option RawArguments → Parser α}
    (solid : ∀ state : RawArguments, state.closed = false → Solid (next (some state)))
    (ended : Careful S (next none) good)
    (rest : ∀ ⦃state place⦄, S.origin.Reaches place → S.origin.Passes place state.start →
      CarefulOn S (next (some state)) good place)
    {state : RawArguments} {cursor : Cursor} (reached : S.origin.Reaches cursor)
    (passes : S.origin.Passes cursor state.start) :
    CarefulOn S (rawArgumentStep state >>= next) good cursor := by
  unfold rawArgumentStep
  cases closed : state.closed with
  | true => exact ended reached
  | false =>
    rw [if_neg Bool.false_ne_true, bind_assoc]
    -- at the end of input nothing is accepted, so only the other tokens matter
    refine .currentSolid (.current fun token kind => ?_) reached ?_
    · rw [kind]
      exact .bind (.of_unexpected _)
    · have taken (proper : cursor.current.IsProper) {state : RawArguments}
          (passes : S.origin.Passes cursor state.start) :
          CarefulOn S (do
            let _ ← advance
            next (some state)) good cursor :=
        .advance reached proper (rest (reached.advance proper.sound) (passes.advance proper.sound))
      split
      · exact CarefulAt.of_unexpected "')'"
      · exact CarefulAt.of_unexpected "')'"
      · next kind => exact taken (.of_kind kind rfl) passes
      · next kind =>
        split
        · exact .textFrom passes fun _ => taken (.of_kind kind rfl) passes
        · exact taken (.of_kind kind rfl) passes
      · next kind =>
        split
        · have proper : cursor.current.IsProper := .of_kind kind rfl
          have reached' := reached.advance proper.sound
          simp only [bind_assoc, pure_bind]
          refine .textFrom passes fun text => .advance reached proper ?_
          exact .hereSolid (fun span => solid _ rfl) reached' (rest reached' reached'.passes)
        · exact taken (.of_kind kind rfl) passes
      · next notEnd notMalformed _ _ _ =>
        refine taken ?_ passes
        unfold Token.IsProper TokenKind.isProper
        split
        · exact absurd ‹_› notEnd
        · exact absurd ‹_› (notMalformed _)
        · rfl

/-- Raw arguments are careful.

**Proof sketch.** While the parentheses are open, a step accepts nothing at the end of input, and
neither does the loop. So the loop is careful by induction on the bound, with
`rawArgumentStep_careful` for the step, and it is entered at the token after the first parenthesis,
which begins at the start of the first argument. -/
lemma rawArguments_careful (fuel : Nat) : Careful S (rawArguments fuel) fun _ => True := by
  have solid (state : RawArguments) (isOpen : state.closed = false) (fuel : Nat) :
      Solid (iterate rawArgumentStep fuel state) := by
    cases fuel with
    | zero => exact .of_exhausted
    | succ fuel =>
      refine .bind ?_
      unfold rawArgumentStep
      rw [isOpen, if_neg Bool.false_ne_true]
      refine .current fun token kind => ?_
      rw [kind]
      exact .of_unexpected _
  have loop (fuel : Nat) ⦃state : RawArguments⦄ ⦃cursor : Cursor⦄
      (reached : S.origin.Reaches cursor) (passes : S.origin.Passes cursor state.start) :
      CarefulOn S (iterate rawArgumentStep fuel state) (fun _ => True) cursor := by
    induction fuel generalizing state cursor with
    | zero => exact Careful.of_exhausted reached
    | succ fuel ih =>
      refine rawArgumentStep_careful (fun state isOpen => ?_) ?_ (fun state place => ?_)
        reached passes
      · exact solid state isOpen fuel
      · exact .of_pure trivial
      · exact @ih state place
  refine .skip (.expectSymbol _) fun _ cursor reached => ?_
  refine .hereSolid (fun span => .bind (solid _ rfl _)) reached ?_
  exact .bind (loop fuel reached reached.passes) reached fun _ _ => .of_pure trivial

/-- Whether a word of a type name is next does not depend on what follows the source: a keyword that
the token after it decides about is itself inside the source. -/
lemma atTypeWord_steady : Steady S atTypeWord := by
  intro _ view longer near
  unfold atTypeWord
  obtain kind | ⟨kind, kind' | kind'⟩ := near.first
  · rw [kind, near.atIdentifier]
    split
    iterate 3
      rw [near.second_isKeyword (by simp [*])]
    rfl
  · rw [kind, kind', near.atIdentifier]
  · rw [kind, kind', near.atIdentifier]

/-- A word of a type name can be taken. -/
lemma atTypeWord_proper (at_ : atTypeWord cursor.view = true) : cursor.current.IsProper := by
  unfold atTypeWord at at_
  split at at_
  iterate 3
    next kind => exact .of_kind kind rfl
  exact .of_isIdentifierLike at_

/-- A type name is careful. Without any word it is reported as unexpected, so at the end of input
the start that was looked up is not used. -/
lemma typeName_careful (fuel : Nat) : Careful S (typeName fuel) fun _ => True := by
  unfold typeName
  refine .here (fun span => .afterMany (.whenever fun view stops => ?_) ?_) fun span begins => ?_
  · unfold atTypeWord View.atIdentifier
    obtain kind | kind | kind := stops <;> rw [kind] <;> rfl
  · exact .of_unexpected _
  · refine .skip (.many (.whenSeen atTypeWord_steady fun cursor reached at_ => ?_) fuel)
      fun words => .ite (.of_unexpected _) ?_
    · exact .take reached (atTypeWord_proper at_) fun _ _ => .of_pure trivial
    · exact .skip (.whenever (.atSymbol (by simp)) (rawArguments_careful fuel)) fun _ => .returns

/-! ## Variables and placeholders -/

/-- A variable accepts nothing at the end of input. -/
lemma variableExpr_solid : Solid variableExpr :=
  .view fun view kind => by
    rw [kind]
    exact .of_unexpected _

/-- A variable is careful. The drift extensions are only asked for at a dollar name. -/
lemma variableExpr_careful : Careful S variableExpr fun _ => True := by
  refine .view variableExpr_solid (fun _ view longer _ same _ => ?_) fun cursor reached => ?_
  · simp only [View.dollarName?, same]
  · split
    · next which kind =>
      have proper : cursor.current.IsProper := .of_kind kind rfl
      split
      · next name dollar =>
        refine .isDrift (.inl (by simp [dollar])) fun drift => .ite ?_ ?_
        · exact .take reached proper fun _ _ => .of_pure trivial
        · exact .take reached proper fun _ _ => .of_pure trivial
      · exact .take reached proper fun _ _ => .of_pure trivial
    · exact .of_unexpected _

/-! ## Sorting -/

/-- A direction is careful. -/
lemma direction_careful : Careful S direction fun _ => True := by
  unfold direction
  refine .skip (.eatKeyword _) fun isAsc => .ite (.of_pure trivial) ?_
  refine .skip (.eatKeyword _) fun isDesc => ?_
  exact .ite (.of_pure trivial) (.of_pure trivial)

/-- An ordering of nulls is careful where `NULLS` is next: the required feature is complained about
there. -/
lemma nullOrdering_careful (reached : S.origin.Reaches cursor)
    (at_ : cursor.view.atKeyword .NULLS = true) :
    CarefulOn S nullOrdering (fun _ => True) cursor := by
  unfold nullOrdering
  refine .demand reached (.of_isKeyword at_) ?_
  refine .take reached (.of_isKeyword at_) fun _ _ => ?_
  refine .skip (.eatKeyword _) fun isFirst => .ite (.of_pure trivial) ?_
  refine .skip (.eatKeyword _) fun isLast => ?_
  exact .ite (.of_pure trivial) (.of_unexpected _)

section

variable (careful : rules.Careful S)

include careful

/-- An ordering term is careful. -/
lemma orderingTerm_careful : Careful S (orderingTerm rules) fun _ => True := by
  unfold orderingTerm
  refine .skip (expr_careful careful) fun expr => ?_
  refine .skip direction_careful fun direction => ?_
  refine .skip (.whenSeen (.atKeyword _) fun _ => nullOrdering_careful) fun nulls => ?_
  exact .returns

omit careful in
/-- Whether a placeholder stands alone does not depend on what follows the source, if the tokens
that modify an item are the same near the end: the token after the placeholder is an operator in
neither source. -/
lemma atLonePlaceholder_before {modifies : Token → Bool} {view longer : View}
    (near : view.Nears longer) (same : longer.current = view.current)
    (inside : view.current.kind ≠ .endOfInput)
    (keeps : ∀ token token' : Token, token.kind.Nears token'.kind →
      modifies token' = modifies token) :
    atLonePlaceholder modifies longer = atLonePlaceholder modifies view := by
  have second := near.second inside
  unfold atLonePlaceholder View.dollarName?
  rw [keeps _ _ second, second.infixPower, same]

omit careful in
/-- A placeholder that stands alone is a dollar name. -/
lemma dollarName_of_lone {modifies : Token → Bool} {view : View} {name : String}
    (lone : atLonePlaceholder modifies view = some name) : view.dollarName? = some name := by
  unfold atLonePlaceholder at lone
  split at lone
  · simp at lone
  · exact lone

omit careful in
/-- At the end of input no placeholder stands alone. -/
lemma atLonePlaceholder_end {modifies : Token → Bool} {view : View}
    (kind : view.current.kind = .endOfInput) : atLonePlaceholder modifies view = none := by
  unfold atLonePlaceholder View.dollarName?
  rw [kind]
  split <;> rfl

/-- An ordering item is careful: the drift extensions are only asked for at a dollar name, and in
plain SQL the item is a term. -/
lemma orderingItem_careful : Careful S (orderingItem rules) fun _ => True := by
  have term : Careful S (do return .term (← orderingTerm rules)) fun _ : OrderingItem => True :=
    .skip (orderingTerm_careful careful) fun _ => .of_pure trivial
  have solid : Solid (do return .term (← orderingTerm rules) : Parser OrderingItem) :=
    .bind (.bind (careful.solidOperators 0))
  unfold orderingItem
  refine .view (.view fun view kind => ?_) (fun _ view longer near same inside => ?_)
    fun cursor reached => ?_
  · rw [atLonePlaceholder_end kind]
    exact solid
  · rw [atLonePlaceholder_before near same inside fun token token' near => ?_]
    simp only [modifiesOrdering, List.any_cons, List.any_nil, Token.isKeyword_eq, near.isKeyword]
  · split
    · next name lone =>
      have dollar := dollarName_of_lone lone
      have proper : cursor.current.IsProper := .of_kind (kind_of_dollarName dollar) rfl
      refine .isDrift (.inl (by simp [dollar])) fun drift => .ite ?_ (term reached)
      exact .take reached proper fun _ _ => .of_pure trivial
    · exact term reached

/-- `ORDER BY` is careful, and its span begins where a token begins, so that complaints may point to
it. -/
lemma orderBy_careful : Careful S (orderBy rules) fun order => S.origin.Begins order.span := by
  unfold orderBy
  refine .bind (.expectKeyword _) fun start begins => ?_
  refine .skip (.expectKeyword _) fun _ => ?_
  refine .skip (.commaSeparated (orderingItem_careful careful) _) fun items => ?_
  exact .bind (.spanFrom_begins begins) fun _ begins => .of_pure begins

/-- `ORDER BY` that may be left out is careful, and its span begins where a token begins. -/
lemma optionalOrderBy_careful :
    Careful S (optionalOrderBy rules) fun value => ∀ order ∈ value, S.origin.Begins order.span :=
  .whenever (.atKeyword _) (orderBy_careful careful)

/-! ## Windows -/

/-- A bound of a frame accepts nothing at the end of input: it is then read as an expression. -/
lemma frameBound_solid : Solid (frameBound rules) :=
  .view fun view kind => by
    simp only [View.atKeywords_end kind, Bool.false_eq_true, if_false]
    exact .bind (careful.solidOperators 0)

/-- A bound of a frame is careful. -/
lemma frameBound_careful : Careful S (frameBound rules) fun _ => True := by
  refine .view (frameBound_solid careful) (fun _ view longer near _ _ => ?_)
    fun cursor reached => ?_
  · simp only [near.atKeywords]
  · split
    · next at_ => exact .keywords reached at_ (.of_pure trivial)
    split
    · next at_ => exact .keywords reached at_ (.of_pure trivial)
    split
    · next at_ => exact .keywords reached at_ (.of_pure trivial)
    refine Careful.skip (expr_careful careful) (fun offset => ?_) reached
    refine .skip (.eatKeyword _) fun isPreceding => .ite (.of_pure trivial) ?_
    refine .skip (.eatKeyword _) fun isFollowing => ?_
    exact .ite (.of_pure trivial) (.of_unexpected _)

/-- The two bounds after `BETWEEN` are careful. A bound that is not allowed is complained about at
its own first token. -/
lemma frameBetween_careful : Careful S (frameBetween rules) fun _ => True := by
  refine .here (fun _ => .bind (frameBound_solid careful)) fun startSpan begins => ?_
  refine .skip (frameBound_careful careful) fun start => ?_
  split
  · exact .bind (.spanFrom_begins begins) fun _ begins => .of_invalid _ begins
  · refine .skip (.expectKeyword _) fun _ => ?_
    refine .here (fun _ => .bind (frameBound_solid careful)) fun stopSpan begins => ?_
    refine .skip (frameBound_careful careful) fun stop => ?_
    split
    · exact .bind (.spanFrom_begins begins) fun _ begins => .of_invalid _ begins
    · exact .of_pure trivial

/-- The single bound of a frame is careful. -/
lemma frameFrom_careful : Careful S (frameFrom rules) fun _ => True := by
  refine .here (fun _ => .bind (frameBound_solid careful)) fun startSpan begins => ?_
  refine .skip (frameBound_careful careful) fun start => ?_
  split
  · exact .bind (.spanFrom_begins begins) fun _ begins => .of_invalid _ begins
  · exact .bind (.spanFrom_begins begins) fun _ begins => .of_invalid _ begins
  · exact .of_pure trivial

omit careful in
/-- `EXCLUDE` and what follows it is careful. -/
lemma exclusion_careful : Careful S exclusion fun _ => True := by
  unfold exclusion
  refine .skip (.eatKeyword _) fun isExclude => .ite ?_ (.of_pure trivial)
  refine .skip (.eatKeyword _) fun isNo => .ite ?_ ?_
  · refine .skip (.expectKeyword _) fun _ => ?_
    exact .of_pure trivial
  · refine .skip (.eatKeyword _) fun isCurrent => .ite ?_ ?_
    · refine .skip (.expectKeyword _) fun _ => ?_
      exact .of_pure trivial
    · refine .skip (.eatKeyword _) fun isGroup => .ite (.of_pure trivial) ?_
      refine .skip (.eatKeyword _) fun isTies => ?_
      exact .ite (.of_pure trivial) (.of_unexpected _)

/-- A frame that may be left out is careful. It starts with one of the words for its unit, which
neither the end of input nor a separator is. -/
lemma optionalFrame_careful : Careful S (optionalFrame rules) fun _ => True := by
  refine .lookCurrent (pure none) (fun token stops => ?_) fun cursor reached => ?_
  · obtain kind | kind | kind := stops <;> rw [kind] <;> rfl
  · split
    · next unit found =>
      have proper : cursor.current.IsProper := .of_found rfl (fun _ => rfl) found
      refine .take reached proper fun _ _ => ?_
      refine .skip (.eatKeyword _) fun isBetween => .ite ?_ ?_
      · refine .skip (frameBetween_careful careful) fun bounds => ?_
        refine .skip exclusion_careful fun exclude => ?_
        exact .returns
      · refine .skip (frameFrom_careful careful) fun bounds => ?_
        refine .skip exclusion_careful fun exclude => ?_
        exact .returns
    · exact Careful.of_pure trivial reached

omit careful in
/-- Whether the name of a base window is next does not depend on what follows the source. -/
lemma atBaseWindow_steady : Steady S atBaseWindow :=
  .and .atIdentifier (.not (.atAnyKeyword _))

/-- A window in parentheses is careful. -/
lemma windowDefinition_careful : Careful S (windowDefinition rules) fun _ => True := by
  unfold windowDefinition
  refine .skip (.expectSymbol _) fun start => ?_
  refine .skip (.whenever atBaseWindow_steady .identifier) fun base => ?_
  refine .skip (.afterKeyword (.skip (.expectKeyword _) fun _ => exprs_careful careful))
    fun partition => ?_
  refine .skip (optionalOrderBy_careful careful) fun order => ?_
  refine .skip (optionalFrame_careful careful) fun frame => ?_
  refine .skip (.expectSymbol _) fun _ => ?_
  exact .returns

/-! ## Function calls -/

/-- The parameters of a call that does not end accept nothing at the end of input. -/
lemma callParameters_solid : Solid (callParameters rules) := by
  unfold callParameters
  refine .ifSees (fun _ => View.Nears.inside_of_atSymbol) ?_
  refine .ifSymbol ?_
  refine .skip fun distinct => ?_
  exact .bind (exprs_solid careful)

/-- The parameters of a call are careful, and the `ORDER BY` among them begins where a token
begins. -/
lemma callParameters_careful :
    Careful S (callParameters rules) fun value => ∀ order ∈ value.2,
      S.origin.Begins order.span := by
  -- where the input ends no call is closed, so it does not matter that a parenthesis may follow
  refine .seesSolid (callParameters_solid careful) (fun _ _ => View.atSymbol_congr)
    fun _ reached => .ite (Careful.of_pure (by simp) reached) ?_
  refine Careful.skip (.eatSymbol (by simp)) (fun _ => .ite (.of_pure (by simp)) ?_) reached
  refine .skip (.eatKeyword _) fun distinct => ?_
  refine .skip (exprs_careful careful) fun arguments => ?_
  exact .bind (optionalOrderBy_careful careful) fun _ begins => .of_pure begins

/-- `FILTER` is careful. It is recognised with the parenthesis after it, and the required feature is
complained about at the keyword. -/
lemma optionalFilter_careful : Careful S (optionalFilter rules) fun _ => True := by
  refine .whenSeen (fun _ view longer near => ?_) fun cursor reached at_ => ?_
  · exact View.Nears.and_second (near.atKeyword _) View.Nears.inside_of_atKeyword fun inside =>
      near.second_isSymbol _ (by simp) inside
  · have proper : cursor.current.IsProper := .of_isKeyword (Bool.and_eq_true_iff.mp at_).1
    refine .demand reached proper ?_
    refine .take reached proper fun _ _ => ?_
    exact .parenthesized <| .skip (.expectKeyword _) fun _ => expr_careful careful

omit careful in
/-- Whether `OVER` and a window are next does not depend on what follows the source. -/
lemma atOver_steady : Steady S atOver := fun _ _ _ near =>
  View.Nears.and_second (near.atKeyword _) View.Nears.inside_of_atKeyword fun inside =>
    congrArg₂ Bool.or (near.second_isSymbol _ (by simp) inside)
      (near.second inside).isIdentifierLike

/-- The window of a call, defined on the spot or named, is careful. -/
lemma functionWindow_careful : Careful S (functionWindow rules) fun _ => True := by
  unfold functionWindow
  refine .ifSees (.atSymbol (by simp))
    (fun _ reached _ => Careful.skip (windowDefinition_careful careful) (fun _ => .of_pure trivial)
    reached) ?_
  refine .here (fun _ => .bind .identifier) fun start _ => ?_
  refine .skip .identifier fun name => ?_
  exact .returns

omit careful in
/-- The name of a called function can be taken. -/
lemma atCall_proper (at_ : atCall cursor.view = true) : cursor.current.IsProper := by
  unfold atCall at at_
  rw [Bool.and_eq_true] at at_
  split at at_
  · next kind => exact .of_kind kind rfl
  · next kind => exact .of_kind kind rfl
  · exact absurd at_.2 Bool.false_ne_true

/-- A call is careful where one is next. An `ORDER BY` that window functions may not have is
complained about at its own first token, which was reached inside the parentheses. -/
lemma functionCall_careful (reached : S.origin.Reaches cursor) (at_ : atCall cursor.view = true) :
    CarefulOn S (functionCall rules) (fun _ => True) cursor := by
  unfold functionCall
  refine .take reached (atCall_proper at_) fun token _ => ?_
  refine .bind (.parenthesized (callParameters_careful careful))
    fun ⟨parameters, order⟩ begins => ?_
  refine .skip (optionalFilter_careful careful) fun filter => ?_
  refine .ifSees atOver_steady (fun cursor reached at_ => ?_) (.ite .returns .returns)
  have proper : cursor.current.IsProper := .of_isKeyword (Bool.and_eq_true_iff.mp at_).1
  refine .demand reached proper ?_
  cases order with
  | some order => exact Careful.of_invalid _ (begins order rfl) reached
  | none =>
    refine .take reached proper fun _ _ => ?_
    refine .skip (functionWindow_careful careful) fun window => ?_
    exact .returns

/-! ## Operands -/

/-- A subquery, a row or an expression in parentheses is careful. -/
lemma parenthesizedExpr_careful : Careful S (parenthesizedExpr rules) fun _ => True := by
  refine .skip (.expectSymbol _) fun _ => .ifSees .atQuery (fun cursor reached _ => ?_) ?_
  · exact Careful.skip careful.query (fun _ => .skip (.expectSymbol _) fun _ => .returns) reached
  · refine .skip (expr_careful careful) fun first => ?_
    refine .skip (.eatSymbol (by simp)) fun isComma => .ite ?_ ?_
    · refine .skip (exprs_careful careful) fun rest => ?_
      refine .skip (.expectSymbol _) fun _ => ?_
      exact .returns
    · exact .skip (.expectSymbol _) fun _ => .returns

omit careful in
/-- A reference to a column is careful: each further name is only asked for after a dot. -/
lemma reference_careful : Careful S reference fun _ => True := by
  unfold reference
  refine .here (fun _ => .bind .identifier) fun start _ => ?_
  refine .skip .identifier fun first => ?_
  refine .skip (.eatSymbol (by simp)) fun isDot => .ite ?_ .returns
  refine .skip .identifier fun second => ?_
  refine .skip (.eatSymbol (by simp)) fun isDot => .ite ?_ .returns
  refine .skip .identifier fun third => ?_
  exact .returns

/-- `CASE` is careful, branch by branch. -/
lemma caseExpr_careful : Careful S (caseExpr rules) fun _ => True := by
  have branch : Careful S (whenClause rules) fun _ => True := by
    refine .skip (.expectKeyword _) fun start => ?_
    refine .skip (expr_careful careful) fun condition => ?_
    refine .skip (.expectKeyword _) fun _ => ?_
    refine .skip (expr_careful careful) fun result => ?_
    exact .returns
  refine .skip (.expectKeyword _) fun _ => ?_
  refine .skip (.whenever (.not (.atKeyword _)) (expr_careful careful)) fun operand => ?_
  refine .skip (.many (.whenever (.atKeyword _) branch) _) fun branches => ?_
  refine .ite (.of_unexpected _) ?_
  refine .skip (.afterKeyword (expr_careful careful)) fun otherwise => ?_
  refine .skip (.expectKeyword _) fun _ => ?_
  exact .returns

/-- `CAST` is careful. -/
lemma castExpr_careful : Careful S (castExpr rules) fun _ => True := by
  unfold castExpr
  refine .skip (.expectKeyword _) fun start => ?_
  refine .skip (.expectSymbol _) fun _ => ?_
  refine .skip (expr_careful careful) fun operand => ?_
  refine .skip (.expectKeyword _) fun _ => ?_
  refine .skip (typeName_careful _) fun type => ?_
  refine .skip (.expectSymbol _) fun _ => ?_
  exact .returns

/-- `EXISTS` and `NOT EXISTS` are careful. -/
lemma existsExpr_careful : Careful S (existsExpr rules) fun _ => True := by
  unfold existsExpr
  refine .here (fun _ => .skip fun _ => .bind (.expectKeyword _)) fun start _ => ?_
  refine .skip (.eatKeyword _) fun negated => ?_
  refine .skip (.expectKeyword _) fun _ => ?_
  refine .skip (.parenthesized careful.query) fun query => ?_
  exact .returns

/-- `RAISE` is careful: its action is looked up in the next token, and taken only if there is
one. -/
lemma raiseExpr_careful : Careful S (raiseExpr rules) fun _ => True := by
  refine .skip (.expectKeyword _) fun start => ?_
  refine .skip (.expectSymbol _) fun _ => ?_
  refine .current (.current fun token kind => ?_) fun cursor reached => ?_
  · rw [kind]
    exact .of_unexpected _
  · split
    · next action found =>
      have proper : cursor.current.IsProper := .of_found rfl (fun _ => rfl) found
      refine .take reached proper fun _ _ => ?_
      refine .skip (.whenever (fun _ _ _ _ => rfl)
        (.skip (.expectSymbol _) fun _ => expr_careful careful)) fun message => ?_
      refine .skip (.expectSymbol _) fun _ => ?_
      exact .returns
    · exact .of_unexpected _

omit careful in
/-- At the end of input no call is next. -/
lemma atCall_end {view : View} (kind : view.current.kind = .endOfInput) : atCall view = false := by
  simp [atCall, kind]

omit careful in
/-- An operand without prefix accepts nothing at the end of input: it is then read as a variable. -/
lemma primary_solid : Solid (primary rules) := by
  refine .view fun view kind => ?_
  simp only [kind, View.atKeyword_end kind, atCall_end kind, View.atIdentifier_end kind,
    Bool.false_and, Bool.false_eq_true, if_false]
  exact variableExpr_solid

/-- An operand without prefix is careful.

**Proof sketch.** What is looked at is the next token and whether a parenthesis follows, which is
the same in a longer source. A literal is taken after it was found. In every other case a parser is
entered that is careful itself, a call only where one is next. -/
lemma primary_careful : Careful S (primary rules) fun _ => True := by
  refine .view primary_solid (fun _ view longer near same inside => ?_) fun cursor reached => ?_
  · have second : longer.second.isSymbol .leftParen = view.second.isSymbol .leftParen :=
      near.second_isSymbol _ (by simp) inside
    simp only [atCall, View.atKeyword, View.atIdentifier, second, same]
    rfl
  · split
    · next value found =>
      refine .take reached (.of_found rfl (fun _ => rfl) found) fun _ _ => ?_
      exact .of_pure trivial
    · split
      · exact parenthesizedExpr_careful careful reached
      · exact caseExpr_careful careful reached
      · exact castExpr_careful careful reached
      · exact existsExpr_careful careful reached
      · refine .ite (raiseExpr_careful careful reached) ?_
        split
        · next at_ => exact functionCall_careful careful reached at_
        · exact .ite (reference_careful reached) (variableExpr_careful reached)

omit careful in
/-- An operand accepts nothing at the end of input, as no prefix operator is next there. -/
lemma operand_solid : Solid (operand rules) := by
  refine .view fun view kind => ?_
  simp only [kind, unaryOp?, View.atKeywords_end kind, Bool.false_eq_true, if_false]
  exact primary_solid

/-- An operand is careful: a prefix operator is taken after it was found, and what follows it is an
operator chain. -/
lemma operand_careful : Careful S (operand rules) fun _ => True := by
  refine .view operand_solid (fun _ view longer near same inside => ?_) fun cursor reached => ?_
  · simp only [near.atKeywords, same]
  · refine .ite (existsExpr_careful careful reached) ?_
    split
    · next op least found =>
      refine .take reached (.of_found rfl (fun _ => rfl) found) fun token _ => ?_
      refine .skip (careful.operators _) fun operand => ?_
      exact .returns
    · exact primary_careful careful reached

/-! ## Operators after an operand -/

/-- What follows `IN` is careful. In parentheses, `IN ()` ends at once, and where the input ends
nothing is accepted, so it does not matter that a longer source has the closing parenthesis
there. -/
lemma inSource_careful : Careful S (inSource rules) fun _ => True := by
  refine .view (.view fun view kind => ?_) (fun _ view longer near same _ => ?_)
    fun cursor reached => ?_
  · simp only [kind, View.atSymbol_end kind, View.atIdentifier_end kind, Bool.false_eq_true,
      if_false]
    exact .of_unexpected _
  · simp only [View.atSymbol, View.atIdentifier, same]
    rfl
  · refine .ite ?_ ?_
    · refine Careful.parenthesized (.seesSolid ?_ (fun _ _ => View.atSymbol_congr)
        fun cursor reached => .ite (Careful.of_pure trivial reached) ?_) reached
      · exact .ifSees (fun _ => View.Nears.inside_of_atSymbol) <|
          .ifSees (fun _ => View.Nears.inside_of_atAnyKeyword) (.bind (exprs_solid careful))
      · refine Careful.ifSees .atQuery
          (fun cursor reached _ => Careful.skip careful.query (fun _ => .of_pure trivial) reached)
          ?_ reached
        exact .skip (exprs_careful careful) fun _ => .of_pure trivial
    · split
      · exact Careful.skip variableExpr_careful (fun _ => .of_pure trivial) reached
      · exact .ite (Careful.skip qualifiedName_careful (fun _ => .returns) reached)
          (.of_unexpected _)

/-- An operator that `NOT` may precede is careful: `BETWEEN`, `IN` and the kinds of matching are
taken after they were found. -/
lemma negatable_careful (left : Expr) (negated : Bool) :
    Careful S (negatable rules left negated) fun _ => True := by
  refine .current (.current fun token kind => ?_) fun cursor reached => ?_
  · dsimp only
    rw [kind]
    exact .of_unexpected _
  · dsimp only
    split
    · next kind =>
      refine .take reached (.of_kind kind rfl) fun _ _ => ?_
      refine .skip (careful.operators _) fun low => ?_
      refine .skip (.expectKeyword _) fun _ => ?_
      refine .skip (careful.operators _) fun high => ?_
      exact .returns
    · next kind =>
      refine .take reached (.of_kind kind rfl) fun _ _ => ?_
      refine .skip (inSource_careful careful) fun source => ?_
      exact .returns
    · split
      · next op found =>
        refine .take reached (.of_found rfl (fun _ => rfl) found) fun _ _ => ?_
        refine .skip (careful.operators _) fun pattern => ?_
        refine .skip (.afterKeyword (careful.operators _)) fun escape => ?_
        exact .returns
      · exact .of_unexpected _

/-- What follows `IS` is careful. `DISTINCT FROM` is only required as a feature where `DISTINCT` is
next. -/
lemma isExpr_careful (left : Expr) : Careful S (isExpr rules left) fun _ => True := by
  unfold isExpr
  refine .skip (.eatKeyword _) fun negated => ?_
  refine .skip (.eatKeyword _) fun isNull => .ite .returns ?_
  refine .skip (.whenSeen (.atKeyword _) fun _ reached at_ => .demand reached (.of_isKeyword at_) <|
    .take reached (.of_isKeyword at_) fun _ _ => .forget (.expectKeyword _)) fun distinct => ?_
  refine .skip (careful.operators _) fun right => ?_
  exact .of_pure trivial

omit careful in
/-- A binary operator accepts nothing at the end of input. -/
lemma binaryExpr_solid (left : Expr) (power : Nat) : Solid (binaryExpr rules left power) :=
  .current fun token kind => by
    rw [kind]
    exact .of_unexpected _

/-- A binary operator is careful. A feature is required before the operator is taken, so its absence
is complained about at the operator. -/
lemma binaryExpr_careful (left : Expr) (power : Nat) :
    Careful S (binaryExpr rules left power) fun _ => True := by
  refine .current (binaryExpr_solid left power) fun cursor reached => ?_
  split
  · next op found =>
    have rest : CarefulOn S (do
        let _ ← advance
        let right ← rules.operators (power + 1)
        return Expr.binary left op right (left.span.merge right.span)) (fun _ => True) cursor := by
      refine .take reached (.of_found rfl (fun _ => rfl) found) fun _ _ => ?_
      refine .skip (careful.operators _) fun right => ?_
      exact .of_pure trivial
    exact .ite (.require reached.begins rest) rest
  · exact .of_unexpected _

/-- An operator after an operand is careful.

**Proof sketch.** By the kind of the next token. `COLLATE`, `ISNULL`, `NOTNULL`, `IS` and `NOT` are
taken after they were seen. The six words of the operators that `NOT` may precede go on with
`negatable_careful`, and everything else with `binaryExpr_careful`. At the end of input the last
case applies, which accepts nothing. -/
lemma operatorAfter_careful (left : Expr) (power : Nat) :
    Careful S (operatorAfter rules left power) fun _ => True := by
  refine .current (.current fun token kind => ?_) fun cursor reached => ?_
  · rw [kind]
    exact binaryExpr_solid left power
  · split
    · next kind =>
      refine .take reached (.of_kind kind rfl) fun _ _ => ?_
      refine .skip .identifier fun collation => ?_
      exact .returns
    · next kind => exact .take reached (.of_kind kind rfl) fun _ _ => .returns
    · next kind => exact .take reached (.of_kind kind rfl) fun _ _ => .returns
    · next kind => exact .take reached (.of_kind kind rfl) fun _ _ => isExpr_careful careful left
    · next kind =>
      refine .take reached (.of_kind kind rfl) fun _ _ => ?_
      refine .skip (.eatKeyword _) fun isNull => ?_
      exact .ite .returns (negatable_careful careful left true)
    iterate 6 exact negatable_careful careful left false reached
    · exact binaryExpr_careful careful left power reached

/-- A step of the operator loop is careful. The power of the next token is zero at the end of input
and at a separator, and `NOT` counts as an operator only with the token after it, which is inside
the source if `NOT` is. -/
lemma nextOperator_careful (least : Nat) (left : Expr) :
    Careful S (nextOperator rules least left) fun _ => True := by
  refine .look (fun _ view longer near same => ?_) fun cursor reached => ?_
  · have negated : (longer.atKeyword .NOT && !startsNegated longer) =
        (view.atKeyword .NOT && !startsNegated view) := by
      refine View.Nears.and_second (near.atKeyword _) View.Nears.inside_of_atKeyword
        fun inside => ?_
      simp only [startsNegated, List.any_cons, List.any_nil, near.second_isKeyword inside]
    simp only [near.first.infixPower, negated]
  · split
    · exact .ite (Careful.of_pure trivial reached)
        (Careful.skip (operatorAfter_careful careful left _) (fun _ => .of_pure trivial) reached)
    · exact Careful.of_pure trivial reached

/-- **Expressions are careful.** -/
lemma expression_careful (least : Nat) : Careful S (expression rules least) fun _ => True :=
  .skip (operand_careful careful) fun first => .iterate (nextOperator_careful careful least) _ first

omit careful in
/-- An expression accepts nothing at the end of input, as its operand does not. -/
lemma expression_solid (least : Nat) : Solid (expression rules least) :=
  .bind operand_solid

end

end SqlTree.Grammar
