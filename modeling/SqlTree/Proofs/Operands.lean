import SqlTree.Proofs.Starts

set_option autoImplicit false

/-!
# Runs of operands

The kind of its first token tells what an operand is, but for the tokens that can be names: those
start a call where a parenthesis follows.

## Main definitions

* `SqlTree.Grammar.variableOf` — what a variable is read as.
* `SqlTree.Grammar.operandOf` — the operand that a kind of tokens starts.

## Main results

* `SqlTree.Grammar.run_variableExpr`, `SqlTree.Grammar.run_primary_of` — what is read at tokens of a
  kind.
-/

namespace SqlTree.Grammar

open SqlTree.Parser

variable {dialect : Dialect} {cursor stop : Cursor}

/-! ## Variables -/

/-- What a variable token is read as. -/
def variableOf (drift : Bool) (which : Variable) (span : Span) : Expr :=
  match which, drift with
  | .named .dollar name, true => .placeholder name span
  | _, _ => .variable which span

/-- The name of a variable after a dollar sign. -/
def dollar? : Variable → Option String
  | .named .dollar name => some name
  | _ => none

/-- The dollar name that is seen is that of the next variable. -/
lemma dollarName?_of_kind {which : Variable} (kind : cursor.current.kind = .variable which) :
    cursor.view.dollarName? = dollar? which := by
  unfold View.dollarName?
  rw [show cursor.view.current.kind = .variable which from kind]
  cases which with
  | named sigil name => cases sigil <;> rfl
  | _ => rfl

/-- A variable is read as itself, or as a placeholder. -/
lemma run_variableExpr {which : Variable} (kind : cursor.current.kind = .variable which) :
    variableExpr.run dialect cursor =
      .accepted (variableOf dialect.isDrift which cursor.current.span) cursor.advance := by
  have sound : cursor.current.kind.isMalformed = false := by rw [kind]; rfl
  unfold variableExpr
  rw [run_view_bind, dollarName?_of_kind kind,
    show cursor.view.current.kind = .variable which from kind]
  cases which with
  | named sigil name =>
    cases sigil with
    | dollar =>
      dsimp only [dollar?]
      rw [run_isDrift_bind]
      split
      · next is_drift => rw [run_advance_bind sound, is_drift]; rfl
      · next not =>
        rw [Bool.not_eq_true] at not
        rw [run_advance_bind sound, not]
        rfl
    | _ => dsimp only [dollar?]; rw [run_advance_bind sound]; rfl
  | _ => dsimp only [dollar?]; rw [run_advance_bind sound]; rfl

/-- What was read as a variable was the token of one. -/
lemma accepted_variableExpr {value : Expr}
    (run : variableExpr.run dialect cursor = .accepted value stop) :
    ∃ which, cursor.current.kind = .variable which := by
  unfold variableExpr at run
  rw [run_view_bind] at run
  split at run
  · next which kind => exact ⟨which, kind⟩
  · exact absurd run not_accepted_unexpected

/-! ## Operands without operators -/

/-- An operand of this kind is a call, a column or a variable. -/
def isPlainOperand : TokenKind → Bool
  | .identifier _ | .variable _ => true
  | .keyword word => word.canNameFunction
  | _ => false

/-- The operand that starts with a token of this kind. -/
def operandOf (rules : Rules) (view : View) (kind : TokenKind) : Parser Expr :=
  match literal? kind with
  | some value => do return .literal value (← advance).span
  | none =>
    match kind with
    | .symbol .leftParen => parenthesizedExpr rules
    | .keyword .CASE => caseExpr rules
    | .keyword .CAST => castExpr rules
    | .keyword .EXISTS => existsExpr rules
    | _ =>
      if view.atKeyword .RAISE && view.second.isSymbol .leftParen then raiseExpr rules
      else if atCall view then functionCall rules
      else if view.atIdentifier then reference
      else variableExpr

/-- An operand without prefix is read by the kind of the next token. -/
lemma run_primary_of {rules : Rules} {kind : TokenKind} (eq : cursor.current.kind = kind) :
    (primary rules).run dialect cursor = (operandOf rules cursor.view kind).run dialect cursor := by
  subst eq
  rfl

/-- Where a name or a variable may stand, what is read depends on what follows it. -/
lemma operandOf_plain {rules : Rules} {view : View} {kind : TokenKind}
    (plain : isPlainOperand kind = true) :
    operandOf rules view kind =
      if view.atKeyword .RAISE && view.second.isSymbol .leftParen then raiseExpr rules
      else if atCall view then functionCall rules
      else if view.atIdentifier then reference
      else variableExpr := by
  cases kind with
  | keyword word =>
    revert plain
    cases word <;> first | exact fun _ => rfl | exact fun h => absurd h Bool.false_ne_true
  | identifier | «variable» => rfl
  | _ => exact absurd plain Bool.false_ne_true

/-- Where a call or a column is read, no operator of the drift extensions or of errors is. -/
lemma isPlainOperand_of_atIdentifier (at_ : cursor.view.atIdentifier = true) :
    isPlainOperand cursor.current.kind = true := by
  have names : cursor.current.kind.namesFunction = true :=
    TokenKind.namesFunction_of_isIdentifierLike at_
  generalize cursor.current.kind = kind at names
  cases kind with
  | identifier | keyword => exact names
  | _ => exact absurd names Bool.false_ne_true

/-- A name that stands before no parenthesis starts a column. -/
lemma run_primary_reference {rules : Rules} (at_ : cursor.view.atIdentifier = true)
    (noCall : (cursor.peek 1).isSymbol .leftParen = false) :
    (primary rules).run dialect cursor = reference.run dialect cursor := by
  have noCall' : cursor.view.second.isSymbol .leftParen = false := noCall
  rw [run_primary_of rfl, operandOf_plain (isPlainOperand_of_atIdentifier at_), noCall',
    Bool.and_false, if_neg Bool.false_ne_true, if_neg fun call => ?_, if_pos at_]
  exact Bool.false_ne_true (noCall'.symm.trans (atCall_iff.mp call).1)

/-- Where no operator stands before it, an operand is one without operators. -/
lemma run_operand_primary {rules : Rules} (plain : unaryOp? cursor.current.kind = none) :
    (operand rules).run dialect cursor = (primary rules).run dialect cursor := by
  have plain : unaryOp? cursor.view.current.kind = none := plain
  have noNot : cursor.view.atKeywords .NOT .EXISTS = false := by
    by_contra at_
    rw [Bool.not_eq_false] at at_
    have first := (Bool.and_eq_true_iff.mp at_).1
    rw [Token.isKeyword_eq, TokenKind.isKeyword_iff] at first
    rw [first] at plain
    cases plain
  unfold operand
  rw [run_view_bind, noNot, if_neg Bool.false_ne_true, plain]

end SqlTree.Grammar
