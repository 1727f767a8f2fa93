import SqlTree.Grammar.Knot
import SqlTree.Proofs.Bounds.Tireless

set_option autoImplicit false

/-!
# Bounds on loops and depth

The parsers of expressions, queries and table references reach their parts after at least one token,
and each turn of their loops takes a token. So the bounds on depth and on the number of repetitions
do not matter, once they are larger than the number of tokens ahead.

## Main definitions

* `SqlTree.Grammar.Rules.Settles` — rules that settle where fewer than `k` tokens are ahead.

## Main results

* `SqlTree.Grammar.rules_settles` — rules with bounds that suffice settle.
-/

namespace SqlTree

open SqlTree.Parser SqlTree.Grammar

/-! ## The end of input -/

namespace Cursor

variable {cursor : Cursor} (atEnd : cursor.current.kind = .endOfInput)

include atEnd

/-- No keyword is next at the end of input. -/
lemma not_atKeyword_end (word : Keyword) : ¬ cursor.view.atKeyword word = true :=
  ne_true_of_eq_false (View.atKeyword_end atEnd word)

/-- No symbol is next at the end of input. -/
lemma not_atSymbol_end (which : Symbol) : ¬ cursor.view.atSymbol which = true :=
  ne_true_of_eq_false (View.atSymbol_end atEnd which)

/-- None of some keywords is next at the end of input. -/
lemma not_atAnyKeyword_end (words : List Keyword) : ¬ cursor.view.atAnyKeyword words = true :=
  ne_true_of_eq_false (View.atAnyKeyword_end atEnd words)

/-- No name is next at the end of input. -/
lemma not_atIdentifier_end : ¬ cursor.view.atIdentifier = true :=
  ne_true_of_eq_false (View.atIdentifier_end atEnd)

end Cursor

namespace Grammar

/-- The rules settle where fewer than `k` tokens are ahead, and repeat loops often enough for
them. -/
structure Rules.Settles (k : Nat) (rules rules' : Rules) : Prop where
  some : 0 < k
  enough : k ≤ rules.limit
  enough' : k ≤ rules'.limit
  operators : ∀ least, Parser.Settles k (rules.operators least) (rules'.operators least)
  query : Parser.Settles k rules.query rules'.query
  tableRef : Parser.Settles k rules.tableRef rules'.tableRef

variable {k : Nat} {rules rules' : Rules}

/-! ## Types -/

/-- A word of a type name is a token. -/
lemma typeWord_progress : Progress (whenever atTypeWord do return (← advance).lexeme) := by
  refine .whenKeyword (.bind .advance) fun view at_ kind => ?_
  unfold atTypeWord View.atIdentifier at at_
  simp [kind, TokenKind.isIdentifierLike] at at_

/-- A turn of the loop over raw arguments takes a token: at the end of input, and at a malformed
token, it accepts nothing, and in every other case it goes on by one. -/
lemma rawArgumentStep_progress (state : RawArguments) : Progress (rawArgumentStep state) := by
  intro dialect cursor value stop ends run
  unfold rawArgumentStep at run
  split at run
  · exact absurd (accepted_pure run).1 (by simp)
  rw [run_current_bind] at run
  have some : cursor.current.kind ≠ .endOfInput := by
    intro kind
    rw [kind] at run
    exact not_accepted_unexpected run
  have := ahead_of_ends ends some
  have goes : ∀ {next : Token → Parser (Option RawArguments)},
      (advance >>= next).run dialect cursor = .accepted (Option.some value) stop →
      stop.ahead.length < cursor.ahead.length := by
    intro next run
    have steps : Steps (advance >>= next) := .bind .advance
    have := steps run
    omega
  repeat' split at run
  all_goals first
    | exact absurd run not_accepted_unexpected
    | exact goes run

instance (state : RawArguments) : Tireless (rawArgumentStep state) := by
  unfold rawArgumentStep
  split
  · infer_instance
  · refine @Tireless.bind _ _ _ _ _ fun token => ?_
    split <;> infer_instance

/-- Raw arguments settle if the bounds on their tokens suffice. -/
lemma rawArguments_settles {fuel fuel' : Nat} (enough : k ≤ fuel) (enough' : k ≤ fuel') :
    Settles k (rawArguments fuel) (rawArguments fuel') := by
  unfold rawArguments
  refine .skip fun _ => .skip fun here => ?_
  exact .bind (.iterate (fun _ => .refl _) rawArgumentStep_progress enough enough' _)
    fun _ => .refl _

/-- Type names settle if the bounds on their words suffice. -/
lemma typeName_settles {fuel fuel' : Nat} (enough : k ≤ fuel) (enough' : k ≤ fuel') :
    Settles k (typeName fuel) (typeName fuel') := by
  unfold typeName
  refine .skip fun start => ?_
  refine .bind (.many (.refl _) typeWord_progress enough enough') fun words => ?_
  refine .ite (.refl _) ?_
  refine .bind (.whenever (rawArguments_settles enough enough')) fun arguments => ?_
  exact .refl _

section

variable (settles : rules.Settles k rules')

include settles

/-! ## Lists -/

/-- Expressions settle: they are operator chains of the least power. -/
lemma expr_settles : Settles k rules.expr rules'.expr :=
  settles.operators 0

/-- Lists of expressions settle. -/
lemma exprs_settles : Settles k rules.exprs rules'.exprs :=
  .commaSeparated (expr_settles settles) settles.enough settles.enough'

/-- Lists of names settle. -/
lemma identifiers_settles : Settles k rules.identifiers rules'.identifiers :=
  .commaSeparated (.refl _) settles.enough settles.enough'

/-- Column names in parentheses settle. -/
lemma columnNames_settles : Settles k rules.columnNames rules'.columnNames :=
  .parenthesized (identifiers_settles settles)

/-- Column names that may be left out settle. -/
lemma optionalColumnNames_settles :
    Settles k rules.optionalColumnNames rules'.optionalColumnNames := by
  unfold Rules.optionalColumnNames
  exact .bind (.whenever (columnNames_settles settles)) fun _ => .refl _

/-! ## Sorting and windows -/

/-- Ordering terms settle. -/
lemma orderingTerm_settles : Settles k (orderingTerm rules) (orderingTerm rules') :=
  .bind (expr_settles settles) fun _ => .refl _

/-- Ordering items settle: only the term has bounds. -/
lemma orderingItem_settles : Settles k (orderingItem rules) (orderingItem rules') := by
  have term : Settles k (do return OrderingItem.term (← orderingTerm rules))
      (do return OrderingItem.term (← orderingTerm rules')) :=
    .bind (orderingTerm_settles settles) fun _ => .refl _
  unfold orderingItem
  refine .skip fun view => ?_
  split
  · exact .skip fun drift => .ite (.refl _) term
  · exact term

/-- `ORDER BY` settles. -/
lemma orderBy_settles : Settles k (orderBy rules) (orderBy rules') := by
  unfold orderBy
  refine .skip fun start => .skip fun _ => ?_
  refine .bind (.commaSeparated (orderingItem_settles settles) settles.enough settles.enough')
    fun items => ?_
  exact .refl _

/-- `ORDER BY` that may be left out settles. -/
lemma optionalOrderBy_settles : Settles k (optionalOrderBy rules) (optionalOrderBy rules') :=
  .whenever (orderBy_settles settles)

/-- Bounds of frames settle. -/
lemma frameBound_settles : Settles k (frameBound rules) (frameBound rules') := by
  unfold frameBound
  refine .skip fun view => .ite (.refl _) (.ite (.refl _) (.ite (.refl _) ?_))
  exact .bind (expr_settles settles) fun _ => .refl _

/-- Frames after `BETWEEN` settle. -/
lemma frameBetween_settles : Settles k (frameBetween rules) (frameBetween rules') := by
  unfold frameBetween
  refine .skip fun startSpan => ?_
  refine .bind (frameBound_settles settles) fun start => ?_
  split
  · exact .refl _
  · refine .skip fun _ => .skip fun stopSpan => ?_
    refine .bind (frameBound_settles settles) fun stop => ?_
    split <;> exact .refl _

/-- Frames with a single bound settle. -/
lemma frameFrom_settles : Settles k (frameFrom rules) (frameFrom rules') := by
  unfold frameFrom
  refine .skip fun startSpan => ?_
  refine .bind (frameBound_settles settles) fun start => ?_
  split <;> exact .refl _

/-- Frames that may be left out settle. -/
lemma optionalFrame_settles : Settles k (optionalFrame rules) (optionalFrame rules') := by
  unfold optionalFrame
  refine .skip fun token => ?_
  split
  · refine .skip fun _ => .skip fun between => .ite ?_ ?_
    · exact .bind (frameBetween_settles settles) fun _ => .refl _
    · exact .bind (frameFrom_settles settles) fun _ => .refl _
  · exact .refl _

/-- Windows in parentheses settle. -/
lemma windowDefinition_settles : Settles k (windowDefinition rules) (windowDefinition rules') := by
  unfold windowDefinition
  refine .skip fun start => .skip fun base => ?_
  refine .bind (.afterKeyword (.skip fun _ => exprs_settles settles)) fun partition => ?_
  refine .bind (optionalOrderBy_settles settles) fun _ => ?_
  exact .bind (optionalFrame_settles settles) fun _ => .refl _

/-! ## Function calls -/

/-- The parameters of calls settle. -/
lemma callParameters_settles : Settles k (callParameters rules) (callParameters rules') := by
  unfold callParameters
  refine .skip fun _ => .ite (.refl _) (.skip fun _ => .ite (.refl _) (.skip fun _ => ?_))
  refine .bind (exprs_settles settles) fun arguments => ?_
  exact .bind (optionalOrderBy_settles settles) fun _ => .refl _

/-- `FILTER` settles. -/
lemma optionalFilter_settles : Settles k (optionalFilter rules) (optionalFilter rules') := by
  unfold optionalFilter
  refine .whenever ?_
  refine .skip fun here => .skip fun _ => .skip fun _ => ?_
  exact .parenthesized (.skip fun _ => expr_settles settles)

/-- Windows of calls settle. -/
lemma functionWindow_settles : Settles k (functionWindow rules) (functionWindow rules') := by
  unfold functionWindow
  refine .skip fun isLeftParen => .ite ?_ (.refl _)
  exact .bind (windowDefinition_settles settles) fun _ => .refl _

/-- Calls are guarded by the name of the function. -/
lemma functionCall_settles : Guarded k (functionCall rules) (functionCall rules') := by
  unfold functionCall
  refine .after .advance settles.some fun token => ?_
  refine .bind (.parenthesized (callParameters_settles settles)) fun parts => ?_
  refine .bind (optionalFilter_settles settles) fun filter => ?_
  refine .skip fun follows => .ite ?_ (.refl _)
  refine .skip fun start => .skip fun _ => ?_
  cases parts.2 with
  | some order => exact .refl _
  | none =>
    refine .skip fun _ => ?_
    refine .bind (functionWindow_settles settles) fun window => ?_
    exact .refl _

/-! ## Operands -/

/-- Expressions in parentheses are guarded by the parenthesis. -/
lemma parenthesizedExpr_settles :
    Guarded k (parenthesizedExpr rules) (parenthesizedExpr rules') := by
  unfold parenthesizedExpr
  refine .after (.expectSymbol _) settles.some fun start => ?_
  refine .skip fun isQuery => .ite ?_ ?_
  · exact .bind settles.query fun _ => .refl _
  · refine .bind (expr_settles settles) fun first => ?_
    refine .skip fun isComma => .ite ?_ (.refl _)
    exact .bind (exprs_settles settles) fun _ => .refl _

/-- Branches of `CASE` settle. -/
lemma whenClause_settles : Settles k (whenClause rules) (whenClause rules') := by
  unfold whenClause
  refine .skip fun start => ?_
  refine .bind (expr_settles settles) fun condition => ?_
  refine .skip fun _ => ?_
  refine .bind (expr_settles settles) fun result => ?_
  exact .refl _

omit settles in
/-- A branch of `CASE` takes a token, its keyword. -/
lemma whenClause_progress : Progress (whenever (·.atKeyword .WHEN) (whenClause rules)) := by
  have steps : Steps (whenClause rules) := .bind (.expectKeyword _)
  refine .whenKeyword steps fun view at_ kind => ?_
  simp [View.atKeyword, Token.isKeyword, Token.keyword?, kind] at at_

/-- `CASE` is guarded by its keyword. -/
lemma caseExpr_settles : Guarded k (caseExpr rules) (caseExpr rules') := by
  unfold caseExpr
  refine .after (.expectKeyword _) settles.some fun start => ?_
  refine .bind (.whenever (expr_settles settles)) fun operand => ?_
  refine .bind (.many (.whenever (whenClause_settles settles)) whenClause_progress settles.enough
    settles.enough') fun branches => .ite (.refl _) ?_
  exact .bind (.afterKeyword (expr_settles settles)) fun _ => .refl _

/-- `CAST` is guarded by its keyword. -/
lemma castExpr_settles : Guarded k (castExpr rules) (castExpr rules') := by
  unfold castExpr
  refine .after (.expectKeyword _) settles.some fun start => ?_
  refine .skip fun _ => ?_
  refine .bind (expr_settles settles) fun operand => ?_
  refine .skip fun _ => ?_
  refine .bind (typeName_settles settles.enough settles.enough') fun type => ?_
  exact .refl _

/-- `EXISTS` is guarded by its keyword, which comes before the query. -/
lemma existsExpr_settles : Guarded k (existsExpr rules) (existsExpr rules') := by
  unfold existsExpr
  refine .skip fun start => .skip fun negated => ?_
  refine .after (.expectKeyword _) settles.some fun _ => ?_
  refine .bind (.parenthesized settles.query) fun query => ?_
  exact .refl _

/-- `RAISE` is guarded by its keyword. -/
lemma raiseExpr_settles : Guarded k (raiseExpr rules) (raiseExpr rules') := by
  unfold raiseExpr
  refine .after (.expectKeyword _) settles.some fun start => ?_
  refine .skip fun _ => .skip fun token => ?_
  split
  · refine .skip fun _ => ?_
    refine .bind (.whenever (.skip fun _ => expr_settles settles)) fun message => ?_
    exact .refl _
  · exact .refl _

omit settles in
/-- A reference to a column takes a token, its first name. -/
lemma reference_steps : Steps reference :=
  .skip fun _ => .bind .identifier

omit settles in
/-- A variable is a token. -/
lemma variableExpr_steps : Steps variableExpr := by
  unfold variableExpr
  refine .skip fun view => ?_
  split
  · split
    · exact .skip fun _ => .ite (.bind .advance) (.bind .advance)
    · exact .bind .advance
  · exact .of_unexpected _

/-- **Operands without prefix are guarded.** Each kind of them takes a token before the rules for
its parts are used. -/
lemma primary_settles : Guarded k (primary rules) (primary rules') := by
  unfold primary
  refine .skip fun view => ?_
  split
  · exact .of_steps (.bind .advance)
  · split
    · exact parenthesizedExpr_settles settles
    · exact caseExpr_settles settles
    · exact castExpr_settles settles
    · exact existsExpr_settles settles
    · refine .ite (raiseExpr_settles settles) (.ite (functionCall_settles settles) (.ite ?_ ?_))
      · exact .of_steps reference_steps
      · exact .of_steps variableExpr_steps

/-- **Operands are guarded.** The rules for operator chains are only used after a prefix
operator. -/
lemma operand_settles : Guarded k (operand rules) (operand rules') := by
  unfold operand
  refine .skip fun view => .ite (existsExpr_settles settles) ?_
  split
  · refine .after .advance settles.some fun token => ?_
    refine .bind (settles.operators _) fun operand => ?_
    exact .refl _
  · exact primary_settles settles

/-! ## Operators -/

/-- What follows `IN` settles. -/
lemma inSource_settles : Settles k (inSource rules) (inSource rules') := by
  unfold inSource
  refine .skip fun view => .ite (.parenthesized (.skip fun _ => .ite (.refl _) ?_)) ?_
  · refine .skip fun _ => .ite ?_ ?_
    · exact .bind settles.query fun _ => .refl _
    · exact .bind (exprs_settles settles) fun _ => .refl _
  · split
    · exact .refl _
    · refine .ite ?_ (.refl _)
      refine .skip fun names => ?_
      exact .refl _

/-- Operators that `NOT` may precede are guarded by their keyword. -/
lemma negatable_settles (left : Expr) (negated : Bool) :
    Guarded k (negatable rules left negated) (negatable rules' left negated) := by
  unfold negatable
  refine .skip fun token => ?_
  dsimp only
  split
  · refine .after .advance settles.some fun _ => ?_
    refine .bind (settles.operators _) fun low => ?_
    refine .skip fun _ => ?_
    refine .bind (settles.operators _) fun high => ?_
    exact .refl _
  · refine .after .advance settles.some fun _ => ?_
    refine .bind (inSource_settles settles) fun source => ?_
    exact .refl _
  · split
    · refine .after .advance settles.some fun _ => ?_
      refine .bind (settles.operators _) fun pattern => ?_
      refine .bind (.afterKeyword (settles.operators _)) fun escape => ?_
      exact .refl _
    · exact .of_steps (.of_unexpected _)

/-- What follows `IS` settles. -/
lemma isExpr_settles (left : Expr) : Settles k (isExpr rules left) (isExpr rules' left) := by
  unfold isExpr
  refine .skip fun negated => .skip fun isNull => .ite (.refl _) (.skip fun _ => ?_)
  exact .bind (settles.operators _) fun _ => .refl _

/-- Binary operators are guarded by their token: the right operand comes after it. -/
lemma binaryExpr_settles (left : Expr) (power : Nat) :
    Guarded k (binaryExpr rules left power) (binaryExpr rules' left power) := by
  unfold binaryExpr
  refine .skip fun token => ?_
  split
  · have rest (op : BinaryOp) :
        Guarded k
          (do
            let _ ← advance
            let right ← rules.operators (power + 1)
            return Expr.binary left op right (left.span.merge right.span))
          (do
            let _ ← advance
            let right ← rules'.operators (power + 1)
            return Expr.binary left op right (left.span.merge right.span)) := by
      refine .after .advance settles.some fun _ => ?_
      refine .bind (settles.operators _) fun right => ?_
      exact .refl _
    refine .ite ?_ (rest _)
    refine .skip fun _ => ?_
    exact rest _
  · exact .of_steps (.of_unexpected _)

/-- **Operators after an operand are guarded.** Each of them takes a token before the rules for its
operands are used. -/
lemma operatorAfter_settles (left : Expr) (power : Nat) :
    Guarded k (operatorAfter rules left power) (operatorAfter rules' left power) := by
  unfold operatorAfter
  refine .skip fun token => ?_
  split
  · exact .of_steps (.bind .advance)
  · exact .of_steps (.bind .advance)
  · exact .of_steps (.bind .advance)
  · exact .after .advance settles.some fun _ => isExpr_settles settles left
  · refine .after .advance settles.some fun _ => ?_
    refine .skip fun isNull => ?_
    exact .ite (.refl _) (negatable_settles settles left true).weaken
  iterate 6 exact negatable_settles settles left false
  · exact binaryExpr_settles settles left power

/-- A turn of the operator loop settles. -/
lemma nextOperator_settles (least : Nat) (left : Expr) :
    Settles k (nextOperator rules least left) (nextOperator rules' least left) := by
  unfold nextOperator
  refine .skip fun view => ?_
  split
  · refine .ite (.refl _) ?_
    exact .bind (operatorAfter_settles settles left _).weaken fun _ => .refl _
  · exact .refl _

/-- A turn of the operator loop takes a token: it goes on only where an operator is next, and the
end of input is none. -/
lemma nextOperator_progress (least : Nat) (left : Expr) :
    Progress (nextOperator rules least left) := by
  intro dialect cursor value stop ends run
  unfold nextOperator at run
  rw [run_view_bind] at run
  split at run
  · next power found =>
    split at run
    · exact absurd (accepted_pure run).1 (by simp)
    · obtain ⟨next, middle, inner, -, last⟩ := accepted_bind run
      obtain ⟨-, rfl⟩ := accepted_pure last
      have := (operatorAfter_settles settles left power).steps inner
      have := @ahead_of_ends cursor ends (by
        intro kind
        rw [show cursor.view.current.kind = .endOfInput from kind] at found
        exact absurd found (by simp [infixPower]))
      omega
  · exact absurd (accepted_pure run).1 (by simp)

/-- **Expressions are guarded** by their first operand, and the loop after it settles. -/
lemma expression_settles (least : Nat) :
    Guarded k (expression rules least) (expression rules' least) :=
  .bind (operand_settles settles) settles.some fun first =>
    .iterate (nextOperator_settles settles least) (nextOperator_progress settles least)
      settles.enough
      settles.enough' first

/-! ## Tables -/

/-- Single tables are guarded, by a parenthesis or by a name. -/
lemma singleTable_settles : Guarded k (singleTable rules) (singleTable rules') := by
  unfold singleTable
  refine .skip fun start => .eatSymbol settles.some ?_ ?_
  · refine .skip fun _ => .ite ?_ ?_
    · exact .bind settles.query fun _ => .refl _
    · exact .bind settles.tableRef fun _ => .refl _
  · refine .after (.bind .identifier) settles.some fun name => ?_
    refine .skip fun isLeftParen => .ite ?_ (.refl _)
    exact .bind (.whenever (exprs_settles settles)) fun _ => .refl _

/-- Constraints of joins settle. -/
lemma optionalJoinConstraint_settles :
    Settles k (optionalJoinConstraint rules) (optionalJoinConstraint rules') := by
  unfold optionalJoinConstraint
  refine .skip fun _ => .ite (.bind (expr_settles settles) fun _ => .refl _) (.skip fun _ => ?_)
  refine .ite ?_ (.refl _)
  exact .bind (columnNames_settles settles) fun _ => .refl _

/-- A turn of the loop over joins settles. -/
lemma nextJoin_settles (left : TableRef) :
    Settles k (nextJoin rules left) (nextJoin rules' left) := by
  unfold nextJoin
  refine .skip fun start => .skip fun operator => ?_
  cases operator with
  | none => exact .refl _
  | some operator =>
    refine .bind (singleTable_settles settles).weaken fun table => ?_
    refine .bind (optionalJoinConstraint_settles settles) fun constraint => ?_
    exact .refl _

/-- A turn of the loop over joins takes a token: the table after the operator does. -/
lemma nextJoin_progress (left : TableRef) : Progress (nextJoin rules left) := by
  intro dialect cursor value stop ends run
  unfold nextJoin at run
  rw [run_here_bind] at run
  obtain ⟨operator, middle, first, -, run⟩ := accepted_bind run
  cases operator with
  | none => exact absurd (accepted_pure run).1 (by simp)
  | some operator =>
    obtain ⟨table, middle', second, le, -⟩ := accepted_bind run
    have := (singleTable_settles settles).steps second
    have := accepted_length first
    have := @ahead_of_ends cursor ends (by
      intro kind
      unfold optionalJoinOperator at first
      rw [run_eatSymbol_bind, if_neg (Cursor.not_atSymbol_end kind _), if_neg Bool.false_ne_true,
        run_sees_bind, if_neg (Cursor.not_atAnyKeyword_end kind _)] at first
      exact absurd (accepted_pure first).1 (by simp))
    omega

/-- **Table references are guarded** by their first table. -/
lemma joinedTables_settles : Guarded k (joinedTables rules) (joinedTables rules') :=
  .bind (singleTable_settles settles) settles.some fun first =>
    .iterate (nextJoin_settles settles) (nextJoin_progress settles) settles.enough
      settles.enough' first

/-! ## Queries -/

/-- Common tables settle. -/
lemma commonTable_settles : Settles k (commonTable rules) (commonTable rules') := by
  unfold commonTable
  refine .skip fun start => .skip fun name => ?_
  refine .bind (optionalColumnNames_settles settles) fun columns => ?_
  refine .skip fun _ => .skip fun materialized => ?_
  refine .bind (.parenthesized settles.query) fun query => ?_
  exact .refl _

/-- `WITH` is guarded by its keyword. -/
lemma withClause_settles : Guarded k (withClause rules) (withClause rules') := by
  unfold withClause
  refine .after (.expectKeyword _) settles.some fun start => ?_
  refine .skip fun recursive => ?_
  refine .bind (.commaSeparated (commonTable_settles settles) settles.enough settles.enough')
    fun tables => ?_
  exact .refl _

/-- Result columns that are expressions settle. -/
lemma expressionColumn_settles :
    Settles k (expressionColumn rules) (expressionColumn rules') := by
  unfold expressionColumn
  refine .skip fun start => ?_
  refine .bind (expr_settles settles) fun expr => ?_
  refine .skip fun code => ?_
  split <;> exact .refl _

/-- Result columns settle. -/
lemma resultColumn_settles : Settles k (resultColumn rules) (resultColumn rules') := by
  unfold resultColumn nestedQuery
  refine .skip fun view => .ite (.refl _) (.ite (.refl _) (.ite (.refl _) (.ite ?_ ?_)))
  · refine .skip fun _ => .ite ?_ (expressionColumn_settles settles)
    refine .skip fun start => .skip fun _ => ?_
    refine .bind (.parenthesized settles.query) fun query => ?_
    exact .refl _
  · exact expressionColumn_settles settles

/-- Lists of result columns settle. -/
lemma resultColumns_settles : Settles k (resultColumns rules) (resultColumns rules') :=
  .commaSeparated (resultColumn_settles settles) settles.enough settles.enough'

/-- Named windows settle. -/
lemma namedWindows_settles : Settles k (namedWindows rules) (namedWindows rules') := by
  have window : Settles k (namedWindow rules) (namedWindow rules') := by
    refine .skip fun start => .skip fun name => .skip fun _ => ?_
    refine .bind (windowDefinition_settles settles) fun definition => ?_
    exact .refl _
  refine .skip fun _ => .skip fun _ => .skip fun _ => ?_
  exact .commaSeparated window settles.enough settles.enough'

/-- `SELECT` is guarded by its keyword. -/
lemma selectClause_settles : Guarded k (selectClause rules) (selectClause rules') := by
  unfold selectClause
  refine .after (.expectKeyword _) settles.some fun start => ?_
  refine .skip fun distinct => ?_
  refine .bind (resultColumns_settles settles) fun columns => ?_
  refine .bind (.afterKeyword settles.tableRef) fun source => ?_
  refine .bind (.afterKeyword (expr_settles settles)) fun _ => ?_
  refine .bind (.afterKeyword (.skip fun _ => exprs_settles settles)) fun _ => ?_
  refine .bind (.afterKeyword (expr_settles settles)) fun _ => ?_
  exact .bind (.whenever (namedWindows_settles settles)) fun _ => .refl _

/-- `VALUES` is guarded by its keyword. -/
lemma valuesClause_settles : Guarded k (valuesClause rules) (valuesClause rules') := by
  unfold valuesClause
  refine .after (.expectKeyword _) settles.some fun start => ?_
  refine .bind (.commaSeparated (.parenthesized (exprs_settles settles)) settles.enough
    settles.enough') fun rows => ?_
  exact .refl _

/-- Members of queries are guarded by the keyword they start with. -/
lemma queryCore_settles : Guarded k (queryCore rules) (queryCore rules') := by
  unfold queryCore
  refine .skip fun token => ?_
  split
  · exact .bind (selectClause_settles settles) settles.some fun _ => .refl _
  · exact .bind (valuesClause_settles settles) settles.some fun _ => .refl _
  · exact .of_steps (.of_unexpected _)

/-- A turn of the loop over the members of a query settles. -/
lemma nextCompound_settles : Settles k (nextCompound rules) (nextCompound rules') := by
  unfold nextCompound
  refine .skip fun start => .skip fun operator => ?_
  cases operator with
  | none => exact .refl _
  | some operator => exact .bind (queryCore_settles settles).weaken fun _ => .refl _

/-- A turn of the loop over the members of a query takes a token: the member after the operator
does. -/
lemma nextCompound_progress : Progress (nextCompound rules) := by
  intro dialect cursor value stop ends run
  unfold nextCompound at run
  rw [run_here_bind] at run
  obtain ⟨operator, middle, first, -, run⟩ := accepted_bind run
  cases operator with
  | none => exact absurd (accepted_pure run).1 (by simp)
  | some operator =>
    obtain ⟨core, middle', second, le, -⟩ := accepted_bind run
    have := (queryCore_settles settles).steps second
    have := accepted_length first
    have := @ahead_of_ends cursor ends (by
      intro kind
      have none := Cursor.not_atKeyword_end kind
      unfold optionalCompoundOperator at first
      rw [run_eatKeyword_bind, if_neg (none _), if_neg Bool.false_ne_true, run_eatKeyword_bind,
        if_neg (none _), if_neg Bool.false_ne_true, run_eatKeyword_bind, if_neg (none _)] at first
      exact absurd (accepted_pure first).1 (by simp))
    omega

/-- Limits settle. -/
lemma limit_settles : Settles k (limit rules) (limit rules') := by
  have expressions : Settles k (limitExpressions rules) (limitExpressions rules') := by
    unfold limitExpressions
    refine .bind (expr_settles settles) fun first => ?_
    refine .skip fun isOffset => .ite ?_ (.skip fun _ => ?_)
    · exact .bind (expr_settles settles) fun _ => .refl _
    · refine .ite ?_ (.refl _)
      exact .bind (expr_settles settles) fun _ => .refl _
  unfold limit
  refine .skip fun _ => .skip fun view => ?_
  split
  · refine .skip fun drift => .ite (.refl _) ?_
    refine .bind expressions fun kind => ?_
    exact .refl _
  · exact .bind expressions fun _ => .refl _

/-- Queries after their common tables are guarded by their first member. -/
lemma queryAfter_settles (commonTables : Option WithClause) (start : Span) :
    Guarded k (queryAfter rules commonTables start) (queryAfter rules' commonTables start) := by
  unfold queryAfter
  refine .bind (queryCore_settles settles) settles.some fun _ => ?_
  refine .bind (.many (nextCompound_settles settles) (nextCompound_progress settles) settles.enough
    settles.enough') fun _ => ?_
  refine .bind (optionalOrderBy_settles settles) fun _ => ?_
  exact .bind (.whenever (limit_settles settles)) fun _ => .refl _

/-- **Queries are guarded**, by `WITH` or by their first member. -/
lemma query_settles : Guarded k (query rules) (query rules') := by
  unfold query
  refine .skip fun start => ⟨?_, ?_⟩
  · exact .bind (.whenever (withClause_settles settles).settles) fun _ =>
      (queryAfter_settles settles _ _).settles
  · exact .skip fun _ => (queryAfter_settles settles _ _).steps

end

/-! ## The end of input -/

section

variable {dialect : Dialect} {cursor : Cursor} (atEnd : cursor.current.kind = .endOfInput)

include atEnd

/-- At the end of input an operand is read as a variable, which is the last kind that is tried. -/
lemma run_operand_end : (operand rules).run dialect cursor = variableExpr.run dialect cursor := by
  have kind : cursor.view.current.kind = .endOfInput := atEnd
  have atKeyword := Cursor.not_atKeyword_end atEnd
  have first : ¬ cursor.view.atKeywords .NOT .EXISTS = true := by
    unfold View.atKeywords
    rw [Bool.and_eq_true]
    exact fun both => atKeyword _ both.1
  have call : ¬ atCall cursor.view = true := by
    unfold atCall
    simp [kind]
  unfold operand
  rw [run_view_bind, if_neg first, kind]
  dsimp only [unaryOp?]
  unfold primary
  rw [run_view_bind, kind]
  dsimp only [literal?]
  rw [if_neg (by simp [atKeyword]), if_neg call, if_neg (Cursor.not_atIdentifier_end atEnd)]

/-- At the end of input an expression is missing. -/
lemma run_expression_end (least : Nat) :
    (expression rules least).run dialect cursor =
      (unexpected "expression" : Parser Expr).run dialect cursor := by
  unfold expression
  rw [run_bind, run_operand_end atEnd]
  unfold variableExpr
  rw [run_view_bind, show cursor.view.current.kind = .endOfInput from atEnd]
  rfl

/-- At the end of input a query is missing. -/
lemma run_query_end : (query rules).run dialect cursor =
    (unexpected "SELECT or VALUES" : Parser Query).run dialect cursor := by
  unfold query whenever
  rw [run_here_bind, run_bind, run_sees_bind, if_neg (Cursor.not_atKeyword_end atEnd _)]
  dsimp only [pure, Parser.run]
  unfold queryAfter queryCore
  rw [run_bind, run_current_bind, atEnd]
  rfl

/-- At the end of input the name of a table is missing. -/
lemma run_joinedTables_end : (joinedTables rules).run dialect cursor =
    (unexpected "identifier" : Parser TableRef).run dialect cursor := by
  unfold joinedTables singleTable
  rw [run_bind, run_here_bind, run_eatSymbol_bind, if_neg (Cursor.not_atSymbol_end atEnd _),
    if_neg Bool.false_ne_true]
  unfold qualifiedName identifier
  rw [run_bind, run_bind, run_sees_bind, if_neg (Cursor.not_atIdentifier_end atEnd)]
  rfl

end

/-- At the end of input the rules for parts are not used. -/
lemma atEnd_settles (rules rules' : Rules) :
    (∀ least, Settles 1 (expression rules least) (expression rules' least)) ∧
      Settles 1 (query rules) (query rules') ∧
      Settles 1 (joinedTables rules) (joinedTables rules') := by
  have atEnd : ∀ {cursor : Cursor}, cursor.Ends → cursor.ahead.length < 1 →
      cursor.current.kind = .endOfInput := by
    intro cursor ends few
    by_contra kind
    have := ahead_of_ends ends kind
    omega
  refine ⟨fun least => ?_, ?_, ?_⟩
  · exact .of_run (unexpected "expression")
      (fun _ _ ends few => run_expression_end (atEnd ends few) least)
      (fun _ _ ends few => run_expression_end (atEnd ends few) least)
  · exact .of_run (unexpected "SELECT or VALUES")
      (fun _ _ ends few => run_query_end (atEnd ends few))
      (fun _ _ ends few => run_query_end (atEnd ends few))
  · exact .of_run (unexpected "identifier")
      (fun _ _ ends few => run_joinedTables_end (atEnd ends few))
      (fun _ _ ends few => run_joinedTables_end (atEnd ends few))

/-! ## The rules -/

/-- The rules of every depth have the same bound on repetitions. -/
lemma limit_rules (limit depth : Nat) : (Grammar.rules limit depth).limit = limit := by
  cases depth <;> rfl

/-- **Bounds that suffice do not matter.** Rules whose bounds are at least `k` reach no bound
where fewer than `k` tokens are ahead, and run alike there. -/
theorem rules_settles {limit limit' depth depth' : Nat} (some : 0 < k) (enough : k ≤ limit)
    (enough' : k ≤ limit') (deep : k ≤ depth) (deep' : k ≤ depth') :
    (Grammar.rules limit depth).Settles k (Grammar.rules limit' depth') := by
  obtain ⟨k, rfl⟩ : ∃ less, k = less + 1 := ⟨k - 1, by omega⟩
  induction k generalizing depth depth' with
  | zero =>
    obtain ⟨depth, rfl⟩ : ∃ less, depth = less + 1 := ⟨depth - 1, by omega⟩
    obtain ⟨depth', rfl⟩ : ∃ less, depth' = less + 1 := ⟨depth' - 1, by omega⟩
    have wholes := atEnd_settles (Grammar.rules limit depth) (Grammar.rules limit' depth')
    exact ⟨by omega, enough, enough', wholes.1, wholes.2.1, wholes.2.2⟩
  | succ k ih =>
    obtain ⟨depth, rfl⟩ : ∃ less, depth = less + 1 := ⟨depth - 1, by omega⟩
    obtain ⟨depth', rfl⟩ : ∃ less, depth' = less + 1 := ⟨depth' - 1, by omega⟩
    have parts := @ih depth depth' (by omega) (by omega) (by omega) (by omega) (by omega)
    exact ⟨by omega, enough, enough', fun least => (expression_settles parts least).settles,
      (query_settles parts).settles, (joinedTables_settles parts).settles⟩

end Grammar

end SqlTree
