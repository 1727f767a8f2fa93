import SqlTree.Grammar.Knot
import SqlTree.Proofs.Reread.Starter

set_option autoImplicit false

/-!
# How expressions, queries and table references start

## Main definitions

* `SqlTree.Cursor.StartsExpr` — the next tokens can be the start of an expression.
* `SqlTree.Grammar.Rules.Sound` — what is known about the start of whatever the rules accept.

## Main results

* `SqlTree.Grammar.rules_sound` — the rules of every depth are sound.
-/

namespace SqlTree

open Grammar SqlTree.Parser

/-- A token of this kind can be the first one of an expression. -/
def TokenKind.startsExpr (kind : TokenKind) : Bool :=
  (literal? kind).isSome || (unaryOp? kind).isSome || kind.isIdentifierLike ||
    match kind with
    | .symbol .leftParen | .keyword .CASE | .keyword .CAST | .keyword .EXISTS | .variable _ => true
    | .keyword word => word.canNameFunction
    | _ => false

/-- The next tokens can be the start of an expression. After a name with a point stands another
name, and after a name with a parenthesis stand arguments. -/
structure Cursor.StartsExpr (cursor : Cursor) : Prop where
  first : (cursor.peek 0).kind.startsExpr = true
  column : (cursor.peek 0).kind.isIdentifierLike = true → (cursor.peek 1).kind = .symbol .dot →
    (cursor.peek 2).kind.isIdentifierLike = true
  arguments : (cursor.peek 0).kind.isBare = true → (cursor.peek 1).kind = .symbol .leftParen →
    (cursor.peek 2).kind ≠ .keyword .SELECT ∧ (cursor.peek 2).kind ≠ .keyword .WITH

namespace Cursor.StartsExpr

variable {cursor : Cursor}

/-- No expression starts with a symbol that starts none. -/
lemma not_symbol (starts : cursor.StartsExpr) {which : Symbol}
    (never : (TokenKind.symbol which).startsExpr = false) :
    ¬ cursor.view.atSymbol which = true := by
  intro at_
  change (cursor.peek 0).isSymbol which = true at at_
  rw [Token.isSymbol_eq, TokenKind.isSymbol_iff] at at_
  exact absurd (never.symm.trans (at_ ▸ starts.first)) Bool.false_ne_true

/-- No expression starts with a keyword that starts none. -/
lemma not_keyword (starts : cursor.StartsExpr) {word : Keyword}
    (never : (TokenKind.keyword word).startsExpr = false) :
    ¬ cursor.view.atKeyword word = true := by
  intro at_
  change (cursor.peek 0).isKeyword word = true at at_
  rw [Token.isKeyword_eq, TokenKind.isKeyword_iff] at at_
  exact absurd (never.symm.trans (at_ ▸ starts.first)) Bool.false_ne_true

/-- No expression starts like a query. -/
lemma not_query (starts : cursor.StartsExpr) : ¬ cursor.view.atQuery = true := by
  intro query
  simp only [View.atQuery, View.atAnyKeyword, List.any_cons, List.any_nil, Bool.or_false,
    Bool.or_eq_true] at query
  rcases query with at_ | at_ | at_ <;> exact starts.not_keyword rfl at_

end Cursor.StartsExpr

/-- A token of this kind names a function where a parenthesis follows it. -/
def TokenKind.namesFunction : TokenKind → Bool
  | .identifier _ => true
  | .keyword word => word.canNameFunction
  | _ => false

/-- Whatever may be a name may name a function. -/
lemma TokenKind.namesFunction_of_isIdentifierLike {kind : TokenKind}
    (isName : kind.isIdentifierLike = true) : kind.namesFunction = true := by
  cases kind with
  | identifier => rfl
  | keyword word =>
    have isName : word.canBeIdentifier = true := isName
    change word.canNameFunction = true
    unfold Keyword.canNameFunction
    split <;> first | rfl | exact isName
  | _ => exact absurd isName Bool.false_ne_true

/-- A name that is no keyword names a function. -/
lemma TokenKind.namesFunction_of_isBare {kind : TokenKind} (isBare : kind.isBare = true) :
    kind.namesFunction = true := by
  cases kind with
  | identifier => rfl
  | _ => cases isBare

/-- No prefix operator may be a name. -/
lemma Grammar.isIdentifierLike_of_unaryOp? {kind : TokenKind} {found : UnaryOp × Nat}
    (unary : unaryOp? kind = some found) : kind.isIdentifierLike = false := by
  cases kind with
  | identifier => cases unary
  | keyword word => cases word <;> first | rfl | cases unary
  | _ => rfl

/-- A call is next if a parenthesis follows what may name a function. -/
lemma Grammar.atCall_iff {view : View} :
    atCall view = true ↔
      view.second.isSymbol .leftParen = true ∧ view.current.kind.namesFunction = true :=
  Bool.and_eq_true_iff

/-- The expression is a literal or a variable, which is a single token, or a function call. -/
def Expr.isSimple : Expr → Bool
  | .literal _ _ | .variable _ _ | .placeholder _ _ => true
  | .call _ _ _ | .aggregate _ _ _ _ _ | .windowCall _ _ _ _ _ => true
  | _ => false

namespace Grammar

variable {dialect : Dialect} {cursor stop : Cursor} {rules : Rules}

/-- Whatever the rules accept starts as it should. -/
structure Rules.Sound (dialect : Dialect) (rules : Rules) : Prop where
  expr : ∀ {least cursor expr stop},
    (rules.operators least).run dialect cursor = .accepted expr stop → cursor.StartsExpr
  query : ∀ {cursor query stop},
    rules.query.run dialect cursor = .accepted query stop → cursor.view.atQuery = true
  tableRef : ∀ {cursor table stop},
    rules.tableRef.run dialect cursor = .accepted table stop → cursor.view.atQuery = false
  /-- A placeholder that is a whole expression is a single token. -/
  placeholder : ∀ {least cursor name span stop},
    (rules.operators least).run dialect cursor = .accepted (.placeholder name span) stop →
      cursor.view.dollarName? = some name ∧ stop = cursor.advance
  /-- A placeholder without an operator after it is a whole expression. -/
  alone : ∀ {least cursor name expr stop},
    (rules.operators least).run dialect cursor = .accepted expr stop →
      cursor.view.dollarName? = some name → dialect.isDrift = true →
      infixPower (cursor.peek 1).kind = none → (∃ span, expr = .placeholder name span) ∧
        stop = cursor.advance

/-! ## Expressions -/

/-- What is no name needs only a first token that starts expressions. -/
lemma startsExpr_of_kind {kind : TokenKind} (current : (cursor.peek 0).kind = kind)
    (starts : kind.startsExpr = true) (notName : kind.isIdentifierLike = false) :
    cursor.StartsExpr where
  first := by rw [current]; exact starts
  column := by rw [current, notName]; intro h; exact absurd h Bool.false_ne_true
  arguments := by
    rw [current]
    intro bare
    cases kind with
    | identifier => cases notName
    | _ => cases bare

/-- The arguments of a call start with no query. -/
lemma callParameters_starts {value : Parameters × Option OrderBy} (sound : rules.Sound dialect)
    (run : (callParameters rules).run dialect cursor = .accepted value stop) :
    (cursor.peek 0).kind ≠ .keyword .SELECT ∧ (cursor.peek 0).kind ≠ .keyword .WITH := by
  by_contra contra
  have either : (cursor.peek 0).kind = .keyword .SELECT ∨
      (cursor.peek 0).kind = .keyword .WITH := by
    by_contra neither
    exact contra ⟨fun h => neither (.inl h), fun h => neither (.inr h)⟩
  have noSymbol : ∀ which, ¬ cursor.view.atSymbol which = true := by
    intro which
    change ¬ (cursor.peek 0).isSymbol which = true
    rw [Token.isSymbol_eq]
    rcases either with kind | kind <;> rw [kind] <;> simp [TokenKind.isSymbol]
  have noDistinct : ¬ cursor.view.atKeyword .DISTINCT = true := by
    change ¬ (cursor.peek 0).isKeyword .DISTINCT = true
    rw [Token.isKeyword_eq]
    rcases either with kind | kind <;> rw [kind] <;> simp
  unfold callParameters at run
  rw [run_sees_bind, if_neg (noSymbol _), run_eatSymbol_bind, if_neg (noSymbol _),
    if_neg Bool.false_ne_true, run_eatKeyword_bind, if_neg noDistinct] at run
  obtain ⟨arguments, middle, run, -, -⟩ := accepted_bind run
  obtain ⟨first, end_, run, -, -⟩ := accepted_bind run
  have := (sound.expr run).first
  rcases either with kind | kind <;> rw [kind] at this <;> exact absurd this (by decide)

/-- A call is a start of an expression: its parameters do not start like a query, as
`callParameters_starts` says. -/
lemma functionCall_starts {expr : Expr} (sound : rules.Sound dialect)
    (at_ : atCall cursor.view = true)
    (run : (functionCall rules).run dialect cursor = .accepted expr stop) :
    cursor.StartsExpr := by
  obtain ⟨paren, names⟩ := atCall_iff.mp at_
  change (cursor.peek 1).isSymbol .leftParen = true at paren
  change (cursor.peek 0).kind.namesFunction = true at names
  rw [Token.isSymbol_eq, TokenKind.isSymbol_iff] at paren
  refine ⟨?_, ?_, ?_⟩
  · unfold TokenKind.startsExpr
    generalize (cursor.peek 0).kind = kind at names
    cases kind <;> simp_all [TokenKind.isIdentifierLike, TokenKind.namesFunction]
    split <;> simp_all
  · rw [paren]
    intro _ dot
    exact absurd dot (by simp)
  · intro _ _
    unfold functionCall at run
    obtain ⟨-, -, run⟩ := accepted_advance run
    obtain ⟨parameters, middle, run, -, -⟩ := accepted_bind run
    unfold parenthesized at run
    obtain ⟨-, -, run⟩ := accepted_expectSymbol run
    obtain ⟨inner, end_, run, -, -⟩ := accepted_bind run
    have := callParameters_starts sound run
    rwa [Cursor.peek_advance, Cursor.peek_advance] at this

/-- A reference to a column is a start of an expression.

**Proof sketch.** After a point the second name was read, so there is one. A parenthesis after the
name would have made it a call. -/
lemma reference_starts {expr : Expr} (call : ¬ atCall cursor.view = true)
    (at_ : cursor.view.atIdentifier = true)
    (run : reference.run dialect cursor = .accepted expr stop) : cursor.StartsExpr := by
  have name : (cursor.peek 0).kind.isIdentifierLike = true := at_
  refine ⟨by unfold TokenKind.startsExpr; simp [name], fun _ dot => ?_, fun bare paren => ?_⟩
  · unfold reference identifier at run
    rw [run_here_bind, run_bind, run_sees_bind, if_pos at_] at run
    rw [run_advance_bind (sound_of_atIdentifier at_)] at run
    dsimp only [Parser.run, pure] at run
    have atDot : cursor.advance.view.atSymbol .dot = true := by
      change (cursor.advance.peek 0).isSymbol .dot = true
      rw [Cursor.peek_advance, Token.isSymbol_eq, dot]
      rfl
    rw [run_eatSymbol_bind, if_pos atDot, if_pos rfl] at run
    obtain ⟨second, middle, run, -, -⟩ := accepted_bind run
    rw [run_sees_bind] at run
    split at run
    · next second =>
      change (cursor.advance.advance.peek 0).kind.isIdentifierLike = true at second
      rwa [Cursor.peek_advance, Cursor.peek_advance] at second
    · exact absurd run not_accepted_unexpected
  · refine absurd (atCall_iff.mpr ⟨?_, ?_⟩) call
    · change (cursor.peek 1).isSymbol .leftParen = true
      rw [Token.isSymbol_eq, paren]
      rfl
    · exact TokenKind.namesFunction_of_isBare bare

/-- An operand without prefix is a start of an expression.

**Proof sketch.** By what it was read as. A literal, `CASE` and so on are told by the first token,
and none of these is a name. `RAISE` is followed by its parenthesis, and is not bare. For calls and
references there are lemmas, and a variable is a token of its own kind. -/
lemma primary_starts {expr : Expr} (sound : rules.Sound dialect)
    (run : (primary rules).run dialect cursor = .accepted expr stop) : cursor.StartsExpr := by
  unfold primary at run
  rw [run_view_bind, show cursor.view.current = cursor.peek 0 from rfl] at run
  split at run
  · next value literal =>
    have kind := kind_of_literal? literal
    refine startsExpr_of_kind kind ?_ value.kind_isIdentifierLike
    unfold TokenKind.startsExpr
    rw [literal?_kind]
    rfl
  · split at run
    · next kind => exact startsExpr_of_kind kind rfl rfl
    · next kind => exact startsExpr_of_kind kind rfl rfl
    · next kind => exact startsExpr_of_kind kind rfl rfl
    · next kind => exact startsExpr_of_kind kind rfl rfl
    · split at run
      · next raise =>
        rw [Bool.and_eq_true] at raise
        obtain ⟨word, paren⟩ := raise
        change (cursor.peek 0).isKeyword .RAISE = true at word
        change (cursor.peek 1).isSymbol .leftParen = true at paren
        rw [Token.isKeyword_eq, TokenKind.isKeyword_iff] at word
        rw [Token.isSymbol_eq, TokenKind.isSymbol_iff] at paren
        refine ⟨by rw [word]; rfl, fun _ dot => ?_, fun bare => ?_⟩
        · rw [paren] at dot
          exact absurd dot (by simp)
        · rw [word] at bare
          exact absurd bare (by simp [TokenKind.isBare])
      · split at run
        · next at_ => exact functionCall_starts sound at_ run
        · next call =>
          split at run
          · next at_ => exact reference_starts call at_ run
          · unfold variableExpr at run
            rw [run_view_bind, show cursor.view.current = cursor.peek 0 from rfl] at run
            split at run
            · next which kind => exact startsExpr_of_kind kind rfl rfl
            · exact absurd run not_accepted_unexpected

/-- An operand is a start of an expression, as its prefix operator or its first token says. -/
lemma operand_starts {expr : Expr} (sound : rules.Sound dialect)
    (run : (operand rules).run dialect cursor = .accepted expr stop) : cursor.StartsExpr := by
  unfold operand at run
  rw [run_view_bind] at run
  split at run
  · next at_ =>
    have word : (cursor.peek 0).kind = .keyword .NOT := by
      unfold View.atKeywords at at_
      rw [Bool.and_eq_true] at at_
      have := at_.1
      change (cursor.peek 0).isKeyword .NOT = true at this
      rwa [Token.isKeyword_eq, TokenKind.isKeyword_iff] at this
    exact startsExpr_of_kind word rfl rfl
  · rw [show cursor.view.current = cursor.peek 0 from rfl] at run
    split at run
    · next op least unary =>
      refine startsExpr_of_kind rfl ?_ (isIdentifierLike_of_unaryOp? unary)
      simp [TokenKind.startsExpr, unary]
    · exact primary_starts sound run

/-- **An accepted expression starts like one**, as its first operand does. -/
lemma expression_starts {least : Nat} {expr : Expr} (sound : rules.Sound dialect)
    (run : (expression rules least).run dialect cursor = .accepted expr stop) :
    cursor.StartsExpr := by
  obtain ⟨first, middle, run, -, -⟩ := accepted_bind run
  exact operand_starts sound run

/-! ## Placeholders -/

/-- Where the drift extensions are read, a dollar name is read as a placeholder. -/
lemma variableExpr_alone {name : String} {expr : Expr}
    (run : variableExpr.run dialect cursor = .accepted expr stop)
    (dollar : cursor.view.dollarName? = some name) (drift : dialect.isDrift = true) :
    (∃ span, expr = .placeholder name span) ∧ stop = cursor.advance := by
  unfold variableExpr at run
  rw [run_view_bind] at run
  split at run
  · rw [dollar] at run
    dsimp only at run
    rw [run_isDrift_bind, drift, if_pos rfl] at run
    obtain ⟨-, -, run⟩ := accepted_advance run
    obtain ⟨rfl, rfl⟩ := accepted_pure run
    exact ⟨⟨_, rfl⟩, rfl⟩
  · exact absurd run not_accepted_unexpected

/-- A dollar name is a variable with that name. -/
lemma kind_of_dollarName {name : String} (dollar : cursor.view.dollarName? = some name) :
    cursor.view.current.kind = .variable (.named .dollar name) := by
  unfold View.dollarName? at dollar
  split at dollar
  · next kind => rw [kind, Option.some.inj dollar]
  · simp at dollar

/-- A dollar name that no operator follows is read as a placeholder, and nothing more is read.

**Proof sketch.** The dollar name is no keyword and no literal, names no function and no column, so
it is read as a variable, which is a placeholder. The first turn of the operator loop finds no
operator and ends it. -/
lemma expression_alone {least : Nat} {name : String} {expr : Expr}
    (run : (expression rules least).run dialect cursor = .accepted expr stop)
    (dollar : cursor.view.dollarName? = some name) (drift : dialect.isDrift = true)
    (noOperator : infixPower (cursor.peek 1).kind = none) :
    (∃ span, expr = .placeholder name span) ∧ stop = cursor.advance := by
  have kind := kind_of_dollarName dollar
  have kind' : cursor.current.kind = .variable (.named .dollar name) := kind
  obtain ⟨first, middle, first_run, -, run⟩ := accepted_bind run
  have operand_run : variableExpr.run dialect cursor = .accepted first middle := by
    unfold operand at first_run
    rw [run_view_bind, if_neg, kind] at first_run
    · dsimp only [unaryOp?] at first_run
      unfold primary at first_run
      rw [run_view_bind, kind] at first_run
      dsimp only [literal?] at first_run
      rwa [if_neg, if_neg, if_neg] at first_run
      · simp [View.atIdentifier, kind, TokenKind.isIdentifierLike]
      · simp [atCall, kind]
      · simp [View.atKeyword, kind, TokenKind.isKeyword]
    · simp [View.atKeywords, kind, TokenKind.isKeyword]
  obtain ⟨⟨span, rfl⟩, rfl⟩ := variableExpr_alone operand_run dollar drift
  cases fuel : rules.limit with
  | zero =>
    rw [fuel] at run
    exact absurd run not_accepted_exhausted
  | succ fuel' =>
    rw [fuel] at run
    obtain ⟨next, middle, step, -, run⟩ := accepted_bind run
    unfold nextOperator at step
    have power : infixPower cursor.advance.view.current.kind = none := by
      change infixPower (cursor.advance.peek 0).kind = none
      rwa [Cursor.peek_advance]
    rw [run_view_bind, power] at step
    obtain ⟨rfl, rfl⟩ := accepted_pure step
    obtain ⟨rfl, rfl⟩ := accepted_pure run
    exact ⟨⟨span, rfl⟩, rfl⟩

/-! ## Literals, variables and calls -/

/-- A call is read as the call of a function. -/
lemma functionCall_yields :
    (functionCall rules).Yields fun expr => expr.function?.isSome = true := by
  unfold functionCall
  repeat' first
    | exact .of_pure rfl
    | exact .of_invalid _ _
    | refine .bind fun _ => ?_
    | split

/-- What stands in parentheses is no simple expression. -/
lemma parenthesizedExpr_yields :
    (parenthesizedExpr rules).Yields fun expr => expr.isSimple = false := by
  unfold parenthesizedExpr
  repeat' first
    | exact .of_pure rfl
    | refine .bind fun _ => ?_
    | split

/-- `CASE` is no simple expression. -/
lemma caseExpr_yields : (caseExpr rules).Yields fun expr => expr.isSimple = false := by
  unfold caseExpr
  repeat' first
    | exact .of_pure rfl
    | exact .of_unexpected _
    | refine .bind fun _ => ?_
    | split

/-- `CAST` is no simple expression. -/
lemma castExpr_yields : (castExpr rules).Yields fun expr => expr.isSimple = false := by
  unfold castExpr
  repeat' first
    | exact .of_pure rfl
    | refine .bind fun _ => ?_

/-- `EXISTS` is no simple expression. -/
lemma existsExpr_yields : (existsExpr rules).Yields fun expr => expr.isSimple = false := by
  unfold existsExpr
  repeat' first
    | exact .of_pure rfl
    | refine .bind fun _ => ?_

/-- `RAISE` is no simple expression. -/
lemma raiseExpr_yields : (raiseExpr rules).Yields fun expr => expr.isSimple = false := by
  unfold raiseExpr
  repeat' first
    | exact .of_pure rfl
    | exact .of_unexpected _
    | refine .bind fun _ => ?_
    | split

/-- A reference to a column is no simple expression. -/
lemma reference_yields : reference.Yields fun expr => expr.isSimple = false := by
  unfold reference
  repeat' first
    | exact .of_pure rfl
    | refine .bind fun _ => ?_
    | split

/-- What an operator makes that `NOT` may precede is no simple expression. -/
lemma negatable_yields (left : Expr) (negated : Bool) :
    (negatable rules left negated).Yields fun expr => expr.isSimple = false := by
  unfold negatable
  refine .bind fun _ => ?_
  dsimp only
  repeat' first
    | exact .of_pure rfl
    | exact .of_unexpected _
    | refine .bind fun _ => ?_
    | split

/-- What an operator makes of the operand before it is no simple expression. -/
lemma operatorAfter_yields (left : Expr) (power : Nat) :
    (operatorAfter rules left power).Yields fun expr => expr.isSimple = false := by
  unfold operatorAfter isExpr binaryExpr
  repeat' first
    | exact .of_pure rfl
    | exact negatable_yields _ _
    | exact .of_unexpected _
    | refine .bind fun _ => ?_
    | split

/-- What a turn of the operator loop yields is no simple expression. -/
lemma nextOperator_yields {least : Nat} {left expr : Expr}
    (run : (nextOperator rules least left).run dialect cursor = .accepted (some expr) stop) :
    expr.isSimple = false := by
  unfold nextOperator at run
  rw [run_view_bind] at run
  split at run
  · split at run
    · exact absurd (accepted_pure run).1 (by simp)
    · obtain ⟨value, middle, inner, -, last⟩ := accepted_bind run
      obtain ⟨eq, -⟩ := accepted_pure last
      obtain rfl := Option.some.inj eq
      exact operatorAfter_yields _ _ inner
  · exact absurd (accepted_pure run).1 (by simp)

/-- **What an operand is read as.** Literals, variables and calls are told by the tokens ahead, and
all other operands are larger expressions.

**Proof sketch.** By the parser that was entered, each of which yields an expression of its own
kind, as the lemmas about what they yield say. The tokens ahead decide which one it is. -/
lemma accepted_operand {expr : Expr}
    (run : (operand rules).run dialect cursor = .accepted expr stop) :
    (∃ value, literal? cursor.current.kind = some value ∧
      expr = .literal value cursor.current.span ∧ stop = cursor.advance) ∨
    variableExpr.run dialect cursor = .accepted expr stop ∨
    (atCall cursor.view = true ∧ cursor.view.atKeyword .RAISE = false ∧
      (functionCall rules).run dialect cursor = .accepted expr stop) ∨
    expr.isSimple = false := by
  unfold operand at run
  rw [run_view_bind] at run
  split at run
  · exact .inr (.inr (.inr (existsExpr_yields run)))
  · split at run
    · obtain ⟨-, -, run⟩ := accepted_advance run
      obtain ⟨inner, middle, -, -, run⟩ := accepted_bind run
      obtain ⟨rfl, -⟩ := accepted_return run
      exact .inr (.inr (.inr rfl))
    · unfold primary at run
      rw [run_view_bind] at run
      split at run
      · next value found =>
        obtain ⟨-, -, run⟩ := accepted_advance run
        obtain ⟨rfl, rfl⟩ := accepted_pure run
        exact .inl ⟨value, found, rfl, rfl⟩
      · split at run
        · exact .inr (.inr (.inr (parenthesizedExpr_yields run)))
        · exact .inr (.inr (.inr (caseExpr_yields run)))
        · exact .inr (.inr (.inr (castExpr_yields run)))
        · exact .inr (.inr (.inr (existsExpr_yields run)))
        · split at run
          · exact .inr (.inr (.inr (raiseExpr_yields run)))
          · next noRaise =>
            split at run
            · next call =>
              rw [(atCall_iff.mp call).1, Bool.and_true, Bool.not_eq_true] at noRaise
              exact .inr (.inr (.inl ⟨call, noRaise, run⟩))
            · split at run
              · exact .inr (.inr (.inr (reference_yields run)))
              · exact .inr (.inl run)

/-- A variable is a single token, and a placeholder where the drift extensions are read. -/
lemma variableExpr_token {expr : Expr}
    (run : variableExpr.run dialect cursor = .accepted expr stop) : stop = cursor.advance ∧
      ((∃ name, cursor.view.dollarName? = some name ∧
          expr = .placeholder name cursor.current.span) ∨
        ∃ which, cursor.current.kind = .variable which ∧
          expr = .variable which cursor.current.span) := by
  unfold variableExpr at run
  rw [run_view_bind] at run
  split at run
  · next which kind =>
    split at run
    · next name dollar =>
      rw [run_isDrift_bind] at run
      split at run <;> obtain ⟨-, -, run⟩ := accepted_advance run <;>
        obtain ⟨rfl, rfl⟩ := accepted_pure run
      · exact ⟨rfl, .inl ⟨name, dollar, rfl⟩⟩
      · exact ⟨rfl, .inr ⟨which, kind, rfl⟩⟩
    · obtain ⟨-, -, run⟩ := accepted_advance run
      obtain ⟨rfl, rfl⟩ := accepted_pure run
      exact ⟨rfl, .inr ⟨which, kind, rfl⟩⟩
  · exact absurd run not_accepted_unexpected

/-- A placeholder is read as a single token. -/
lemma operand_placeholder {name : String} {span : Span}
    (run : (operand rules).run dialect cursor = .accepted (.placeholder name span) stop) :
    cursor.view.dollarName? = some name ∧ stop = cursor.advance := by
  rcases accepted_operand run with ⟨_, -, eq, -⟩ | run | ⟨-, -, run⟩ | not
  · cases eq
  · obtain ⟨rfl, ⟨_, dollar, eq⟩ | ⟨_, -, eq⟩⟩ := variableExpr_token run <;> cases eq
    exact ⟨dollar, rfl⟩
  · exact absurd (functionCall_yields run) Bool.false_ne_true
  · exact absurd not.symm Bool.false_ne_true

/-- Where the operator loop ends, nothing was taken. -/
lemma nextOperator_none {least : Nat} {left : Expr}
    (run : (nextOperator rules least left).run dialect cursor = .accepted none stop) :
    stop = cursor := by
  unfold nextOperator at run
  rw [run_view_bind] at run
  split at run
  · split at run
    · exact (accepted_pure run).2.symm
    · obtain ⟨value, middle, -, -, last⟩ := accepted_bind run
      exact absurd (accepted_pure last).1 (by simp)
  · exact (accepted_pure run).2.symm

/-- No operator makes a literal, a variable or a call. -/
lemma loops_simple {least : Nat} {left expr : Expr}
    (loops : Loops dialect (nextOperator rules least) left cursor expr stop) :
    (expr = left ∧ stop = cursor) ∨ expr.isSimple = false := by
  induction loops with
  | refl => exact .inl ⟨rfl, rfl⟩
  | step first others ih =>
    rcases ih with ⟨rfl, -⟩ | none
    · exact .inr (nextOperator_yields first)
    · exact .inr none

/-- An expression that is a placeholder was read from a dollar name alone. -/
lemma expression_placeholder {least : Nat} {name : String} {span : Span}
    (run : (expression rules least).run dialect cursor = .accepted (.placeholder name span) stop) :
    cursor.view.dollarName? = some name ∧ stop = cursor.advance := by
  obtain ⟨first, middle, first_run, -, run⟩ := accepted_bind run
  obtain ⟨last, loops, stopped⟩ := accepted_iterate run
  obtain rfl := nextOperator_none stopped
  rcases loops_simple loops with ⟨rfl, rfl⟩ | none
  · exact operand_placeholder first_run
  · exact absurd none (by simp [Expr.isSimple])

/-! ## Queries and table references -/

/-- **An accepted query starts like one**, with `WITH` or with the keyword of its first member. -/
lemma query_starts {value : Query}
    (run : (query rules).run dialect cursor = .accepted value stop) :
    cursor.view.atQuery = true := by
  unfold query whenever at run
  rw [run_here_bind] at run
  obtain ⟨tables, middle, first, -, run⟩ := accepted_bind run
  rw [run_sees_bind] at first
  split at first
  · next at_ => simp [View.atQuery, View.atAnyKeyword, at_]
  · obtain ⟨rfl, rfl⟩ := accepted_pure first
    obtain ⟨core, end_, run, -, -⟩ := accepted_bind run
    unfold queryCore at run
    rw [run_current_bind] at run
    have : ∀ word, cursor.current.kind = .keyword word → cursor.view.atKeyword word = true := by
      intro word kind
      change cursor.current.isKeyword word = true
      rw [Token.isKeyword_eq, kind]
      simp
    split at run
    · next kind => simp [View.atQuery, View.atAnyKeyword, this _ kind]
    · next kind => simp [View.atQuery, View.atAnyKeyword, this _ kind]
    · exact absurd run not_accepted_unexpected

/-- **An accepted table reference does not start like a query**: it starts with a parenthesis or a
name. -/
lemma tableRef_starts {table : TableRef}
    (run : (joinedTables rules).run dialect cursor = .accepted table stop) :
    cursor.view.atQuery = false := by
  obtain ⟨first, middle, run, -, -⟩ := accepted_bind run
  by_contra query
  rw [Bool.not_eq_false] at query
  have kind : cursor.current.kind = .keyword .SELECT ∨ cursor.current.kind = .keyword .WITH ∨
      cursor.current.kind = .keyword .VALUES := by
    change ([Keyword.SELECT, .WITH, .VALUES].any fun word => cursor.current.isKeyword word) = true
      at query
    simpa [TokenKind.isKeyword_iff] using query
  unfold singleTable at run
  rw [run_here_bind, run_eatSymbol_bind, if_neg, if_neg Bool.false_ne_true] at run
  · obtain ⟨name, end_, run, -, -⟩ := accepted_bind run
    obtain ⟨first, end_', run, -, -⟩ := accepted_bind run
    unfold identifier at run
    rw [run_sees_bind, if_neg] at run
    · exact not_accepted_unexpected run
    · change ¬ cursor.current.kind.isIdentifierLike = true
      rcases kind with kind | kind | kind <;> rw [kind] <;> decide
  · change ¬ cursor.current.isSymbol .leftParen = true
    rw [Token.isSymbol_eq]
    rcases kind with kind | kind | kind <;> rw [kind] <;> decide

/-- **The rules of every depth are sound.** -/
theorem rules_sound (dialect : Dialect) (limit depth : Nat) :
    (Grammar.rules limit depth).Sound dialect := by
  induction depth with
  | zero =>
    exact ⟨fun run => absurd run not_accepted_exhausted,
      fun run => absurd run not_accepted_exhausted,
      fun run => absurd run not_accepted_exhausted,
      fun run => absurd run not_accepted_exhausted,
      fun run => absurd run not_accepted_exhausted⟩
  | succ depth ih =>
    exact ⟨fun run => expression_starts ih run, fun run => query_starts run,
      fun run => tableRef_starts run, fun run => expression_placeholder run,
      fun run dollar drift noOperator => expression_alone run dollar drift noOperator⟩

end Grammar

end SqlTree
