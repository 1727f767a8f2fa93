import SqlTree.Parser
import SqlTree.Tree.Literal

set_option autoImplicit false

/-!
# Precedence of operators

Every operator has a power: the greater, the tighter it binds. An operand to the right of an
operator takes in only operators of greater power, so operators of one level group to the left. From
the weakest to the tightest, the levels are `OR`; `AND`; `NOT` before an operand; equality,
patterns, membership and tests for null; comparisons; bits; sums; products; concatenation and JSON;
`COLLATE`; signs and `~` before an operand.

## Main definitions

* `SqlTree.Grammar.infixPower` — the power of an operator after its first operand.
* `SqlTree.Grammar.unaryOp?` — operators before an operand, with the power of the operand.
* `SqlTree.Grammar.binaryOp?` — operators of a single token between two operands.
-/

namespace SqlTree.Grammar

/-- The power of equality, patterns, membership and tests for null. -/
def equalityPower : Nat := 7

/-- The power of `COLLATE`. -/
def collatePower : Nat := 19

/-- The power of an operator that follows an operand, for tokens that are such operators or start
one. -/
def infixPower : TokenKind → Option Nat
  | .keyword .OR => some 1
  | .keyword .AND => some 3
  | .symbol .eq | .symbol .doubleEq | .symbol .notEq | .symbol .ltGt => some equalityPower
  | .keyword .IS | .keyword .IN | .keyword .LIKE | .keyword .GLOB | .keyword .MATCH
  | .keyword .REGEXP | .keyword .BETWEEN | .keyword .ISNULL | .keyword .NOTNULL
  | .keyword .NOT => some equalityPower
  | .symbol .lt | .symbol .ltEq | .symbol .gt | .symbol .gtEq => some 9
  | .symbol .bitAnd | .symbol .bitOr | .symbol .leftShift | .symbol .rightShift => some 11
  | .symbol .plus | .symbol .minus => some 13
  | .symbol .star | .symbol .slash | .symbol .percent => some 15
  | .symbol .concat | .symbol .arrow | .symbol .doubleArrow => some 17
  | .keyword .COLLATE => some collatePower
  | _ => none

/-- The operator that a token is before an operand, and the least power of operators that the
operand takes in. -/
def unaryOp? : TokenKind → Option (UnaryOp × Nat)
  | .symbol .minus => some (.neg, 21)
  | .symbol .plus => some (.plus, 21)
  | .symbol .bitNot => some (.bitNot, 21)
  | .keyword .NOT => some (.not, 5)
  | _ => none

/-- The operator that a single token is between two operands. -/
def binaryOp? : TokenKind → Option BinaryOp
  | .symbol .plus => some .add
  | .symbol .minus => some .sub
  | .symbol .star => some .mul
  | .symbol .slash => some .div
  | .symbol .percent => some .mod
  | .symbol .eq | .symbol .doubleEq => some .eq
  | .symbol .notEq | .symbol .ltGt => some .notEq
  | .symbol .lt => some .lt
  | .symbol .ltEq => some .ltEq
  | .symbol .gt => some .gt
  | .symbol .gtEq => some .gtEq
  | .keyword .AND => some .and
  | .keyword .OR => some .or
  | .symbol .concat => some .concat
  | .symbol .arrow => some .jsonExtract
  | .symbol .doubleArrow => some .jsonExtractText
  | .symbol .bitAnd => some .bitAnd
  | .symbol .bitOr => some .bitOr
  | .symbol .leftShift => some .leftShift
  | .symbol .rightShift => some .rightShift
  | _ => none

/-- The pattern operator that a keyword is. -/
def patternOp? : TokenKind → Option PatternOp
  | .keyword .LIKE => some .like
  | .keyword .GLOB => some .glob
  | .keyword .MATCH => some .matching
  | .keyword .REGEXP => some .regexp
  | _ => none

/-- A `NOT` after an operand belongs to it only if one of these keywords follows. -/
def startsNegated (view : View) : Bool :=
  [Keyword.IN, .LIKE, .GLOB, .MATCH, .REGEXP, .BETWEEN, .NULL].any view.second.isKeyword

end SqlTree.Grammar
