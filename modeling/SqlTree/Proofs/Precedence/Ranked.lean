import SqlTree.Proofs.Operators
import SqlTree.Tree.Walk

set_option autoImplicit false

/-!
# Ranked expressions

A tree of operators that is written without parentheses can be read back only if its operators are
ranked: what stands after an operator binds tighter than the operator, and so does whatever is still
open at the right end of what stands before it. Open is an operand at the end of an expression,
since a further operator could belong to it.

## Main definitions

* `SqlTree.BinaryOp.power`, `SqlTree.UnaryOp.power` — how tight operators bind.
* `SqlTree.Expr.power?` — the power of an operator that stands after its first operand.
* `SqlTree.Expr.operandPower?`, `SqlTree.Expr.last?` — the operand at the end of an expression, and
  the least power of the operators that it takes in.
* `SqlTree.Expr.OnEdge` — the parts of an expression that end where it ends.
* `SqlTree.Expr.Ranked` — the operator at the root fits its operands.
* `SqlTree.Expr.Spine` — the parts of an expression outside of all brackets.
-/

namespace SqlTree

open Grammar

/-! ## Powers -/

/-- The power of an operator between two operands. -/
def BinaryOp.power : BinaryOp → Nat
  | .or => 1
  | .and => 3
  | .eq | .notEq | .is | .isNot => equalityPower
  | .lt | .ltEq | .gt | .gtEq => 9
  | .bitAnd | .bitOr | .leftShift | .rightShift => 11
  | .add | .sub => 13
  | .mul | .div | .mod => 15
  | .concat | .jsonExtract | .jsonExtractText => 17

/-- The least power of the operators that the operand of a unary operator takes in. -/
def UnaryOp.power : UnaryOp → Nat
  | .not => 5
  | .neg | .plus | .bitNot => 21

/-- The token of an operator has the power of the operator. -/
lemma Grammar.infixPower_of_binaryOp? {kind : TokenKind} {op : BinaryOp}
    (found : binaryOp? kind = some op) : infixPower kind = some op.power := by
  unfold binaryOp? at found
  split at found <;> cases found <;> rfl

/-- An operator of one token goes on if it binds as tight as asked for. -/
lemma operatorAt_of_binaryOp? {kind second : TokenKind} {op : BinaryOp} {least : Nat}
    (found : binaryOp? kind = some op) :
    operatorAt least kind second = decide (least ≤ op.power) := by
  refine operatorAt_of_power second (infixPower_of_binaryOp? found) ?_
  unfold binaryOp? at found
  split at found <;> first | rfl | cases found

/-- A prefix operator is read with its own power. -/
lemma Grammar.power_of_unaryOp? {kind : TokenKind} {op : UnaryOp} {power : Nat}
    (found : unaryOp? kind = some (op, power)) : power = op.power := by
  unfold unaryOp? at found
  split at found <;> cases found <;> rfl

namespace Expr

/-- The power of the operator at the root, if it stands after its first operand. -/
def power? : Expr → Option Nat
  | .binary _ op _ _ => some op.power
  | .collate _ _ _ => some collatePower
  | .isNull _ _ _ | .like _ _ _ _ _ _ | .isIn _ _ _ _ | .between _ _ _ _ _ => some equalityPower
  | _ => none

/-- The operand before the operator at the root. -/
def left? : Expr → Option Expr
  | .binary left _ _ _ | .collate left _ _ | .isNull left _ _ | .like left _ _ _ _ _
  | .isIn left _ _ _ | .between left _ _ _ _ => some left
  | _ => none

/-- The operands after the operator at the root, where another one stands before it. -/
def others : Expr → List Expr
  | .binary _ _ right _ => [right]
  | .like _ _ pattern escape _ _ => pattern :: escape.toList
  | .between _ low high _ _ => [low, high]
  | _ => []

/-- The operand at the end of an expression. -/
def last? : Expr → Option Expr
  | .unary _ operand _ => some operand
  | .binary _ _ right _ => some right
  | .like _ _ pattern escape _ _ => some (escape.getD pattern)
  | .between _ _ high _ _ => some high
  | _ => none

/-- The least power of the operators that the operand at the end takes in. -/
def operandPower? : Expr → Option Nat
  | .unary op _ _ => some op.power
  | .binary _ op _ _ => some (op.power + 1)
  | .like _ _ _ _ _ _ | .between _ _ _ _ _ => some (equalityPower + 1)
  | _ => none

/-- The parts of an expression that are open where it ends: itself, and those of the operand at its
end. -/
inductive OnEdge : Expr → Expr → Prop where
  | self (expr : Expr) : OnEdge expr expr
  | last {expr operand part : Expr} (last : expr.last? = some operand)
    (below : OnEdge operand part) : OnEdge expr part

/-- The operator at the root fits its operands. -/
structure Ranked (expr : Expr) : Prop where
  /-- No operand after the operator has an operator at its root that binds less tight. -/
  others : ∀ power ∈ expr.power?, ∀ operand ∈ expr.others, ∀ inner ∈ operand.power?, power < inner
  /-- Nothing that is open where the operand before the operator ends takes the operator in. -/
  left : ∀ power ∈ expr.power?, ∀ operand ∈ expr.left?, ∀ part, operand.OnEdge part →
    ∀ least ∈ part.operandPower?, power < least

/-- Expressions that no operator outside of brackets belongs to. -/
def isClosed : Expr → Bool
  | .unary _ _ _ | .binary _ _ _ _ | .collate _ _ _ | .isNull _ _ _ | .like _ _ _ _ _ _
  | .isIn _ _ _ _ | .between _ _ _ _ _ => false
  | _ => true

/-! ## Parts outside of brackets -/

/-- The operands of the operator at the root, and a variable that membership is tested in. -/
def operands : Expr → List Expr
  | .unary _ operand _ => [operand]
  | .isIn left (.variable which) _ _ => [left, which]
  | expr => expr.left?.toList ++ expr.others

/-- The parts of an expression outside of all brackets. -/
inductive Spine : Expr → Expr → Prop where
  | self (expr : Expr) : Spine expr expr
  | operand {expr operand part : Expr} (mem : operand ∈ expr.operands)
    (below : Spine operand part) : Spine expr part

/-- All parts outside of brackets have a property. -/
def Throughout (property : Expr → Prop) (expr : Expr) : Prop :=
  ∀ part, expr.Spine part → property part

/-- A property holds throughout an expression if it holds of the expression and throughout its
operands. -/
lemma throughout_iff {property : Expr → Prop} {expr : Expr} :
    expr.Throughout property ↔
      property expr ∧ ∀ operand ∈ expr.operands, operand.Throughout property := by
  refine ⟨fun all => ⟨all _ (.self expr), fun operand mem part below =>
    all part (.operand mem below)⟩, ?_⟩
  rintro ⟨own, others⟩ part spine
  cases spine with
  | self => exact own
  | operand mem below => exact others _ mem part below

/-! ## Closed expressions -/

section

variable {expr : Expr} (closed : expr.isClosed = true)

include closed

/-- A closed expression has no power of its own. -/
lemma power?_of_closed : expr.power? = none := by
  cases expr <;> simp_all [isClosed, power?]

/-- A closed expression takes no operand at its end. -/
lemma operandPower?_of_closed : expr.operandPower? = none := by
  cases expr <;> simp_all [isClosed, operandPower?]

/-- A closed expression does not end with an operand. -/
lemma last?_of_closed : expr.last? = none := by
  cases expr <;> simp_all [isClosed, last?]

/-- A closed expression has no operands. -/
lemma operands_of_closed : expr.operands = [] := by
  cases expr <;> simp_all [isClosed, operands, left?, others]

/-- A closed expression is ranked. -/
lemma ranked_of_closed : expr.Ranked :=
  ⟨by simp [power?_of_closed closed], by simp [power?_of_closed closed]⟩

/-- Where nothing but the expression is outside of brackets, it alone is to have a property. -/
lemma throughout_of_closed {property : Expr → Prop} :
    expr.Throughout property ↔ property expr := by
  rw [throughout_iff, operands_of_closed closed]
  simp

end

end Expr

end SqlTree
