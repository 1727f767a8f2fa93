import SqlTree.Proofs.Chains.Tree
import SqlTree.Proofs.Operators
import SqlTree.Proofs.Scripts

set_option autoImplicit false

/-!
# Reading operands of chains

The operands of a chain are read as they should, wherever the end of input or an operator follows.
What stands between parentheses is read there as it is by itself: a parser of expressions goes on in
the same way whether the input ends or a closing parenthesis follows.

## Main definitions

* `SqlTree.Cursor.EndsOperand` — the end of input is next, or an operator of one token.

## Main results

* `SqlTree.Grammar.run_expr_before` — expressions before a closing parenthesis.
* `SqlTree.Chain.IsOperand.run_operand` — operands of chains.
-/

namespace SqlTree

open Grammar SqlTree.Parser

/-! ## What follows an operand -/

/-- The end of input is next, or an operator of one token. -/
def Cursor.EndsOperand (cursor : Cursor) : Prop :=
  cursor.current.kind = .endOfInput ∨ ∃ op, binaryOp? cursor.current.kind = some op

namespace Cursor.EndsOperand

variable {cursor : Cursor} (ends : cursor.EndsOperand)

include ends

/-- Where the operand of a chain ends, the only symbols that are next are operators. -/
lemma isSymbol {which : Symbol} (other : binaryOp? (.symbol which) = none) :
    cursor.current.isSymbol which = false := by
  by_contra is
  rw [Bool.not_eq_false, Token.isSymbol_eq, TokenKind.isSymbol_iff] at is
  obtain atEnd | ⟨op, found⟩ := ends
  · cases is.symm.trans atEnd
  · rw [is, other] at found
    cases found

/-- The operand of a sign takes in no operator of a chain. -/
lemma declines_sign : operatorAt 21 (cursor.peek 0).kind (cursor.peek 1).kind = false := by
  obtain atEnd | ⟨op, found⟩ := ends
  · rw [show (cursor.peek 0).kind = .endOfInput from atEnd]
    rfl
  · have found : binaryOp? (cursor.peek 0).kind = some op := found
    rw [operatorAt_of_binaryOp? found]
    cases op <;> rfl

end Cursor.EndsOperand

namespace Grammar

variable {dialect : Dialect} {source : String} {previous last : Token} {rest : List Token}

/-! ## Steps at a token -/

section Steps

variable {α : Type} {token : Token} {which : Symbol}

/-- Taking a token in front of others goes on with those. -/
lemma run_advance_cons {next : Token → Parser α} (sound : token.kind.isMalformed = false) :
    (advance >>= next).run dialect ⟨source, previous, token :: rest, last⟩ =
      (next token).run dialect ⟨source, token, rest, last⟩ :=
  run_advance_bind sound

/-- Reading a name in front of other tokens goes on with those. -/
lemma run_identifier_cons {next : String → Parser α} (isName : token.kind.isIdentifierLike = true) :
    (identifier >>= next).run dialect ⟨source, previous, token :: rest, last⟩ =
      (next (nameOf token)).run dialect ⟨source, token, rest, last⟩ :=
  run_identifier_bind isName

/-- Taking a symbol that is next in front of other tokens goes on with those. -/
lemma run_expectSymbol_cons {next : Span → Parser α} (is : token.kind = .symbol which) :
    (expectSymbol which >>= next).run dialect ⟨source, previous, token :: rest, last⟩ =
      (next token.span).run dialect ⟨source, token, rest, last⟩ :=
  run_expectSymbol_bind (by
    change token.isSymbol which = true
    rwa [Token.isSymbol_eq, TokenKind.isSymbol_iff])

/-- A symbol that is next is taken, and the reading goes on with the tokens after it. -/
lemma run_eatSymbol_cons {next : Bool → Parser α} (is : token.kind = .symbol which) :
    (eatSymbol which >>= next).run dialect ⟨source, previous, token :: rest, last⟩ =
      (next true).run dialect ⟨source, token, rest, last⟩ := by
  rw [run_eatSymbol_bind, if_pos]
  · rfl
  · change token.isSymbol which = true
    rwa [Token.isSymbol_eq, TokenKind.isSymbol_iff]

/-- A token that is a symbol is no other symbol. -/
lemma isSymbol_of_other {found : Symbol} (is : token.kind = .symbol found) (other : found ≠ which) :
    token.isSymbol which = false := by
  rw [Token.isSymbol_eq, is]
  simpa [TokenKind.isSymbol] using other

/-- A symbol that is not next is not taken. -/
lemma run_eatSymbol_skip {next : Bool → Parser α} {cursor : Cursor}
    (not : cursor.current.isSymbol which = false) :
    (eatSymbol which >>= next).run dialect cursor = (next false).run dialect cursor := by
  rw [run_eatSymbol_bind, if_neg]
  exact Bool.not_eq_true _ ▸ not

end Steps

/-! ## Columns -/

section Columns

variable {schema point table point' name : Token} (isName : name.kind.isIdentifierLike = true)

include isName

/-- A name is read as a column. -/
lemma run_reference_column (ends : Cursor.EndsOperand ⟨source, name, rest, last⟩) :
    reference.run dialect ⟨source, previous, name :: rest, last⟩ =
      .accepted (.reference none none (nameOf name) (name.spanFrom name.span))
        ⟨source, name, rest, last⟩ := by
  unfold reference
  rw [run_here_bind, run_identifier_cons isName, run_eatSymbol_skip (ends.isSymbol rfl)]
  rfl

/-- A name after the name of a table is read as a column of it. -/
lemma run_reference_columnOf (isTable : table.kind.isIdentifierLike = true)
    (isPoint : point.kind = .symbol .dot)
    (ends : Cursor.EndsOperand ⟨source, name, rest, last⟩) :
    reference.run dialect ⟨source, previous, table :: point :: name :: rest, last⟩ =
      .accepted (.reference none (some (nameOf table)) (nameOf name) (name.spanFrom table.span))
        ⟨source, name, rest, last⟩ := by
  unfold reference
  rw [run_here_bind, run_identifier_cons isTable, run_eatSymbol_cons isPoint, if_pos rfl,
    run_identifier_cons isName, run_eatSymbol_skip (ends.isSymbol rfl)]
  rfl

/-- A name after those of a schema and a table is read as a column of that table. -/
lemma run_reference_columnOfSchema (isSchema : schema.kind.isIdentifierLike = true)
    (isPoint : point.kind = .symbol .dot) (isTable : table.kind.isIdentifierLike = true)
    (isPoint' : point'.kind = .symbol .dot) :
    reference.run dialect
        ⟨source, previous, schema :: point :: table :: point' :: name :: rest, last⟩ =
      .accepted (.reference (some (nameOf schema)) (some (nameOf table)) (nameOf name)
        (name.spanFrom schema.span)) ⟨source, name, rest, last⟩ := by
  unfold reference
  rw [run_here_bind, run_identifier_cons isSchema, run_eatSymbol_cons isPoint, if_pos rfl,
    run_identifier_cons isTable, run_eatSymbol_cons isPoint', if_pos rfl,
    run_identifier_cons isName]
  rfl

end Columns

/-! ## Expressions between parentheses -/

/-- **An expression before a closing parenthesis** is read as it is by itself.

**Proof sketch.** By itself it is read up to the end of input, with bounds that suffice and that may
as well be those of the longer source. What was taken before it does not matter, and a careful
parser goes on in the same way where the closing parenthesis stands for the end of input. -/
theorem run_expr_before (opening : Token) (rest : List Token) (last : Token) {closing : Token}
    {inner : List Token} {expr : Expr} {limit depth : Nat}
    (closes : closing.kind = .symbol .rightParen)
    (inside : ∀ token ∈ inner, token.kind ≠ .endOfInput)
    (reads : (Expr.parseAt dialect (.ofTokens source inner)).result = .ok expr)
    (enough : inner.length < limit) (deep : inner.length < depth) :
    ∃ behind, (rules limit depth).expr.run dialect
        ⟨source, opening, inner ++ closing :: rest, last⟩ =
      .accepted expr ⟨source, behind, closing :: rest, last⟩ := by
  let alone : Cursor := ⟨source, opening, inner, Cursor.endToken source⟩
  have ends : alone.Ends := rfl
  have reads : (Expr.parseAt dialect alone).result = .ok expr := by
    have start := Cursor.ofTokens_inner inside source
    rw [start] at reads
    have place : (⟨source, inner.headD (Cursor.endToken source), inner,
        Cursor.endToken source⟩ : Cursor).Ends := rfl
    exact ((wholeExpression_fresh _ _).result_run (Entry.expression.parser_orderly _ _ place inside)
      place opening).trans reads
  obtain ⟨stop, run⟩ := Outcome.accepted_of_result reads
  replace run : (wholeExpression (rules limit depth)).run dialect alone = .accepted expr stop :=
    (run_of_enough .expression ends enough deep).trans run
  obtain ⟨value, middle, first, -, whole⟩ := accepted_bind run
  obtain ⟨atEnd, whole⟩ := accepted_expectEnd whole
  obtain ⟨rfl, rfl⟩ := accepted_pure whole
  let sequel : Sequel := ⟨closing, .inr closes, rest, last⟩
  let S : Surroundings := ⟨alone, ends, inside, some sequel⟩
  have careful := (rules_careful S limit depth).operators 0 (.refl alone)
  have reached := (careful.orderly.accepted (.refl alone) first).2
  have empty := S.ahead_of_end reached (Token.isEnd_iff.mp atEnd)
  refine ⟨middle.previous, (careful.goesOn sequel rfl first).trans ?_⟩
  rw [Cursor.before, empty, reached.source]
  rfl

/-- Tokens between parentheses that are read as an expression of their own are read as one in
parentheses, with any bounds above their number. -/
lemma run_parenthesizedExpr {inner : List Token} {expr : Expr} {opening closing : Token}
    {limit depth : Nat} (opens : opening.kind = .symbol .leftParen)
    (closes : closing.kind = .symbol .rightParen)
    (inside : ∀ token ∈ inner, token.kind ≠ .endOfInput)
    (reads : (Expr.parseAt dialect (.ofTokens source inner)).result = .ok expr)
    (enough : inner.length < limit) (deep : inner.length < depth) :
    (parenthesizedExpr (rules limit depth)).run dialect
        ⟨source, previous, opening :: (inner ++ closing :: rest), last⟩ =
      .accepted (.parentheses expr (closing.spanFrom opening.span))
        ⟨source, closing, rest, last⟩ := by
  obtain ⟨behind, run⟩ := run_expr_before opening rest last closes inside reads enough deep
  have noQuery := ((rules_sound dialect limit depth).expr run).not_query
  have noComma : (Cursor.current ⟨source, behind, closing :: rest, last⟩).isSymbol .comma = false :=
    isSymbol_of_other closes (by decide)
  unfold parenthesizedExpr
  rw [run_expectSymbol_cons opens, run_sees_bind, if_neg noQuery,
    run_bind, run]
  dsimp only
  rw [run_eatSymbol_skip noComma, if_neg Bool.false_ne_true, run_expectSymbol_cons closes]
  rfl

/-! ## Operands without operators -/

/-- The token of a literal is read as that literal. -/
lemma run_operand_literal {rules : Rules} {token : Token} {value : Literal}
    (found : literal? token.kind = some value) :
    (operand rules).run dialect ⟨source, previous, token :: rest, last⟩ =
      .accepted (.literal value token.span) ⟨source, token, rest, last⟩ := by
  let place : Cursor := ⟨source, previous, token :: rest, last⟩
  obtain ⟨plain, sound⟩ : unaryOp? place.current.kind = none ∧ token.kind.isMalformed = false := by
    change unaryOp? token.kind = none ∧ token.kind.isMalformed = false
    rw [kind_of_literal? found]
    exact ⟨value.unaryOp?_kind, value.kind_isMalformed⟩
  refine (run_operand_primary plain).trans ((run_primary_of rfl).trans ?_)
  change (operandOf rules _ token.kind).run _ _ = _
  unfold operandOf
  rw [found]
  exact run_advance_cons sound

/-- A variable is read as itself, or as a placeholder. -/
lemma run_operand_variable {rules : Rules} {token : Token} {which : Variable}
    (isVariable : token.kind = .variable which) :
    (operand rules).run dialect ⟨source, previous, token :: rest, last⟩ =
      .accepted (variableOf dialect.isDrift which token.span) ⟨source, token, rest, last⟩ := by
  let place : Cursor := ⟨source, previous, token :: rest, last⟩
  have kind : place.current.kind = .variable which := isVariable
  have plain : unaryOp? place.current.kind = none := by rw [kind]; rfl
  have noRaise : place.view.atKeyword .RAISE = false := by
    change place.current.isKeyword .RAISE = false
    rw [Token.isKeyword_eq, kind]
    rfl
  have noCall : ¬ atCall place.view = true := fun call => by
    have names : place.current.kind.namesFunction = true := (atCall_iff.mp call).2
    rw [kind] at names
    cases names
  have noName : ¬ place.view.atIdentifier = true := fun name => by
    have name : place.current.kind.isIdentifierLike = true := name
    rw [kind] at name
    cases name
  refine (run_operand_primary plain).trans ((run_primary_of kind).trans ?_)
  rw [operandOf_plain rfl, noRaise, Bool.false_and, if_neg Bool.false_ne_true, if_neg noCall,
    if_neg noName, run_variableExpr kind]
  rfl

/-- At a parenthesis, the operand is what stands in the parentheses. -/
lemma run_operand_parentheses {rules : Rules} {opening : Token} {ahead : List Token}
    (opens : opening.kind = .symbol .leftParen) :
    (operand rules).run dialect ⟨source, previous, opening :: ahead, last⟩ =
      (parenthesizedExpr rules).run dialect ⟨source, previous, opening :: ahead, last⟩ := by
  let place : Cursor := ⟨source, previous, opening :: ahead, last⟩
  have kind : place.current.kind = .symbol .leftParen := opens
  have plain : unaryOp? place.current.kind = none := by rw [kind]; rfl
  exact (run_operand_primary plain).trans (run_primary_of kind)

/-- A name that stands before no parenthesis starts a column. -/
lemma run_operand_reference {rules : Rules} {name : Token} {ahead : List Token}
    (isName : name.kind.isIdentifierLike = true)
    (noCall : (Cursor.current ⟨source, name, ahead, last⟩).isSymbol .leftParen = false) :
    (operand rules).run dialect ⟨source, previous, name :: ahead, last⟩ =
      reference.run dialect ⟨source, previous, name :: ahead, last⟩ := by
  let place : Cursor := ⟨source, previous, name :: ahead, last⟩
  have isName : place.current.kind.isIdentifierLike = true := isName
  have plain : unaryOp? place.current.kind = none := by
    generalize place.current.kind = kind at isName
    cases kind with
    | keyword word => cases word <;> first | rfl | cases isName
    | identifier => rfl
    | _ => cases isName
  exact (run_operand_primary plain).trans (run_primary_reference isName noCall)

/-! ## Signs -/

/-- The signs bind their operands alike. -/
lemma power_of_sign {kind : TokenKind} {op : UnaryOp} {power : Nat}
    (found : unaryOp? kind = some (op, power)) (isSign : op ≠ .not) : power = 21 := by
  rw [power_of_unaryOp? found]
  cases op <;> first | rfl | exact absurd rfl isSign

/-- A sign is read with the operand after it, and nothing else.

**Proof sketch.** A sign is not the keyword `NOT`, so it is taken as a prefix operator. What is read
after it is an operator chain of the power of signs. Its first operand is the one that is given, and
no operator binds tighter than signs do, so the chain ends with that operand. -/
lemma run_operand_signed {limit depth : Nat} {sign : Token} {op : UnaryOp} {power : Nat}
    {tokens : List Token} {value : Expr} (found : unaryOp? sign.kind = some (op, power))
    (isSign : op ≠ .not)
    (read : (operand (rules limit depth)).run dialect ⟨source, sign, tokens ++ rest, last⟩ =
      .accepted value ⟨source, tokens.getLastD sign, rest, last⟩)
    (ends : Cursor.EndsOperand ⟨source, previous, rest, last⟩) (some : 0 < limit) :
    (operand (rules limit (depth + 1))).run dialect
        ⟨source, previous, sign :: (tokens ++ rest), last⟩ =
      .accepted (.unary op value ((tokens.getLastD sign).spanFrom sign.span))
        ⟨source, tokens.getLastD sign, rest, last⟩ := by
  let place : Cursor := ⟨source, previous, sign :: (tokens ++ rest), last⟩
  obtain rfl := power_of_sign found isSign
  have noNot : place.view.atKeywords .NOT .EXISTS = false := by
    by_contra at_
    rw [Bool.not_eq_false] at at_
    have first : sign.isKeyword .NOT = true := (Bool.and_eq_true_iff.mp at_).1
    rw [Token.isKeyword_eq, TokenKind.isKeyword_iff] at first
    rw [first] at found
    cases found
  have sound : sign.kind.isMalformed = false := by
    generalize sign.kind = kind at found
    cases kind with
    | malformed => cases found
    | _ => rfl
  have whole : ((rules limit (depth + 1)).operators 21).run dialect
      ⟨source, sign, tokens ++ rest, last⟩ =
      .accepted value ⟨source, tokens.getLastD sign, rest, last⟩ := by
    change (expression (rules limit depth) 21).run _ _ = _
    unfold expression
    rw [run_bind, read]
    exact run_iterate_of_none (by rwa [limit_rules]) (run_nextOperator_none ends.declines_sign)
  have found : unaryOp? place.view.current.kind = Option.some (op, 21) := found
  unfold operand
  rw [run_view_bind, noNot, if_neg Bool.false_ne_true, found]
  dsimp only
  rw [run_advance_cons sound, run_bind, whole]
  rfl

end Grammar

namespace Chain

variable {dialect : Dialect} {source : String}

/-- **Operands of chains are read as they should**, where the end of input or an operator follows
and the bounds suffice.

**Proof sketch.** By induction on how the tokens form an operand. A literal, a variable or a name is
one step of the parser. In parentheses the tokens are fewer, so the bounds suffice for them
(`run_parenthesizedExpr`). A sign is taken, and the operand after it is read by the induction
hypothesis, one level deeper; it ends where the whole one does, as no operator binds as tightly as a
sign. -/
theorem IsOperand.run_operand {tokens : List Token} {expr : Expr}
    (isOperand : IsOperand dialect source tokens expr) {limit depth : Nat} {previous last : Token}
    {rest : List Token} (ends : Cursor.EndsOperand ⟨source, previous, rest, last⟩)
    (enough : tokens.length + rest.length ≤ limit) (deep : tokens.length + rest.length ≤ depth) :
    (operand (rules limit depth)).run dialect ⟨source, previous, tokens ++ rest, last⟩ =
      .accepted expr ⟨source, tokens.getLastD previous, rest, last⟩ := by
  induction isOperand generalizing depth previous with
  | literal found => exact run_operand_literal found
  | column isName =>
    exact (run_operand_reference isName (ends.isSymbol rfl)).trans
      (run_reference_column isName ends)
  | columnOf isTable isPoint isName =>
    refine (run_operand_reference isTable ?_).trans
      (run_reference_columnOf isName isTable isPoint ends)
    exact isSymbol_of_other isPoint (by decide)
  | columnOfSchema isSchema isPoint isTable isPoint' isName =>
    refine (run_operand_reference isSchema ?_).trans
      (run_reference_columnOfSchema isName isSchema isPoint isTable isPoint')
    exact isSymbol_of_other isPoint (by decide)
  | «variable» isVariable => exact run_operand_variable isVariable
  | @parentheses opening closing inner expr opens closes inside reads =>
    have both : inner.length + 2 + rest.length ≤ limit ∧
        inner.length + 2 + rest.length ≤ depth := by
      simp only [List.length_append, List.length_cons, List.length_nil] at enough deep
      omega
    rw [List.getLastD_concat, List.append_assoc, List.cons_append, run_operand_parentheses opens]
    exact run_parenthesizedExpr opens closes inside reads (by omega) (by omega)
  | @signed sign op power tokens operand found isSign isOperand ih =>
    rw [List.length_cons] at enough deep
    obtain ⟨less, rfl⟩ : ∃ less, depth = less + 1 := ⟨depth - 1, by omega⟩
    have read : (Grammar.operand (rules limit less)).run dialect
        ⟨source, sign, tokens ++ rest, last⟩ =
        .accepted operand ⟨source, tokens.getLastD sign, rest, last⟩ :=
      ih ends (by omega) (by omega)
    rw [List.getLastD_cons]
    exact run_operand_signed found isSign read ends (by omega)

end Chain

end SqlTree
