import SqlTree.Proofs.Starts

set_option autoImplicit false

/-!
# Runs of operators

Whether an operator goes on with an operand is decided by the kinds of the next two tokens.

## Main results

* `SqlTree.Grammar.accepted_nextOperator_none`, `SqlTree.Grammar.accepted_nextOperator_some` — when
  an operand takes in no further operator, and when it does.
* `SqlTree.Grammar.run_operatorAfter_of` — the operator that starts with a token of some kind.
* `SqlTree.Grammar.run_binaryExpr`, `SqlTree.Grammar.accepted_binaryExpr` — an operator of one
  token, taken. -/

namespace SqlTree

variable {least least' power : Nat} {first second : TokenKind}

/-- An operator is read with any least power up to its own. -/
lemma operatorAt_of_le (goes : operatorAt least first second = true)
    (found : Grammar.infixPower first = some power)
    (le : least' ≤ power) : operatorAt least' first second = true := by
  unfold operatorAt at goes ⊢
  rw [found] at goes ⊢
  simp_all

/-- An operator that is read has at least the least power. -/
lemma le_of_operatorAt (goes : operatorAt least first second = true)
    (found : Grammar.infixPower first = some power) : least ≤ power := by
  unfold operatorAt at goes
  rw [found] at goes
  simp_all

namespace Grammar

open SqlTree.Parser

variable {dialect : Dialect} {cursor stop : Cursor} {rules : Rules} {left value : Expr}

/-! ## Whether an operator goes on -/

/-- Where an operator is next, it is read unless it binds less tightly or is a `NOT` that negates
nothing. -/
lemma operatorAt_eq (found : infixPower cursor.current.kind = some power) :
    operatorAt least (cursor.peek 0).kind (cursor.peek 1).kind =
      !(decide (power < least) || (cursor.view.atKeyword .NOT && !startsNegated cursor.view)) := by
  have found : infixPower (cursor.peek 0).kind = some power := found
  have negated : startsNegated cursor.view =
      [Keyword.IN, .LIKE, .GLOB, .MATCH, .REGEXP, .BETWEEN, .NULL].any
        (cursor.peek 1).kind.isKeyword := by
    change [Keyword.IN, .LIKE, .GLOB, .MATCH, .REGEXP, .BETWEEN, .NULL].any
      (cursor.peek 1).isKeyword = _
    simp only [List.any_cons, List.any_nil, Token.isKeyword_eq]
  have at_ : cursor.view.atKeyword .NOT = (cursor.peek 0).kind.isKeyword .NOT := by
    change (cursor.peek 0).isKeyword .NOT = _
    rw [Token.isKeyword_eq]
  rw [operatorAt, found, negated, at_]
  rcases Nat.lt_or_ge power least with lt | ge
  · simp [lt, Nat.not_le.mpr lt]
  · simp [ge, Nat.not_lt.mpr ge]

/-- If no operator was read, none was to be read, and nothing was taken. -/
lemma accepted_nextOperator_none
    (run : (nextOperator rules least left).run dialect cursor = .accepted none stop) :
    operatorAt least (cursor.peek 0).kind (cursor.peek 1).kind = false ∧ stop = cursor := by
  refine ⟨?_, nextOperator_none run⟩
  unfold nextOperator at run
  rw [run_view_bind] at run
  split at run
  · next power found =>
    rw [operatorAt_eq found]
    split at run
    · next ends => exact congrArg (!·) ends
    · obtain ⟨value, middle, -, -, last⟩ := accepted_bind run
      exact absurd (accepted_pure last).1 (by simp)
  · next missing =>
    have missing : infixPower (cursor.peek 0).kind = none := missing
    rw [operatorAt, missing]

/-- Where no operator is to be read, the loop stops. -/
lemma run_nextOperator_none
    (ends : operatorAt least (cursor.peek 0).kind (cursor.peek 1).kind = false) :
    (nextOperator rules least left).run dialect cursor = .accepted none cursor := by
  unfold nextOperator
  rw [run_view_bind]
  split
  · next power found =>
    rw [operatorAt_eq found, Bool.not_eq_false'] at ends
    rw [if_pos ends]
    rfl
  · rfl

/-- If an operator was read, it was to be read, and by its own power. -/
lemma accepted_nextOperator_some
    (run : (nextOperator rules least left).run dialect cursor = .accepted (some value) stop) :
    ∃ power, infixPower cursor.current.kind = some power ∧
      operatorAt least (cursor.peek 0).kind (cursor.peek 1).kind = true ∧
      (operatorAfter rules left power).run dialect cursor = .accepted value stop := by
  unfold nextOperator at run
  rw [run_view_bind] at run
  split at run
  · next power found =>
    split at run
    · exact absurd (accepted_pure run).1 (by simp)
    · next goes =>
      obtain ⟨value, middle, inner, -, last⟩ := accepted_bind run
      obtain ⟨eq, rfl⟩ := accepted_pure last
      obtain rfl := Option.some.inj eq
      refine ⟨power, found, ?_, inner⟩
      rw [operatorAt_eq found]
      rw [Bool.not_eq_true] at goes
      exact congrArg (!·) goes
  · exact absurd (accepted_pure run).1 (by simp)

/-- Where an operator is to be read, the loop reads it by its own power. -/
lemma run_nextOperator_some (found : infixPower cursor.current.kind = some power)
    (goes : operatorAt least (cursor.peek 0).kind (cursor.peek 1).kind = true)
    (run : (operatorAfter rules left power).run dialect cursor = .accepted value stop) :
    (nextOperator rules least left).run dialect cursor = .accepted (some value) stop := by
  unfold nextOperator
  rw [run_view_bind]
  have found : infixPower cursor.view.current.kind = some power := found
  rw [found]
  dsimp only
  rw [operatorAt_eq found, Bool.not_eq_true'] at goes
  rw [if_neg (by rw [goes]; simp), run_bind, run]
  rfl

/-! ## Operators by their first tokens -/

/-- The operator that starts with a token of this kind, after an operand. -/
def operatorOf (rules : Rules) (left : Expr) (power : Nat) (kind : TokenKind) : Parser Expr :=
  match kind with
  | .keyword .COLLATE => do
    let _ ← advance
    let collation ← identifier
    return .collate left collation (← spanFrom left.span)
  | .keyword .ISNULL => do
    let _ ← advance
    return .isNull left false (← spanFrom left.span)
  | .keyword .NOTNULL => do
    let _ ← advance
    return .isNull left true (← spanFrom left.span)
  | .keyword .IS => do
    let _ ← advance
    isExpr rules left
  | .keyword .NOT => do
    let _ ← advance
    if ← eatKeyword .NULL then
      return .isNull left true (← spanFrom left.span)
    else
      negatable rules left true
  | .keyword .IN | .keyword .LIKE | .keyword .GLOB | .keyword .MATCH | .keyword .REGEXP
  | .keyword .BETWEEN => negatable rules left false
  | _ => binaryExpr rules left power

/-- What an operator makes is read by the kind of the next token. -/
lemma run_operatorAfter_of {kind : TokenKind} (eq : cursor.current.kind = kind) :
    (operatorAfter rules left power).run dialect cursor =
      (operatorOf rules left power kind).run dialect cursor := by
  subst eq
  rfl

/-- A binary operator is read as one. -/
lemma operatorOf_binary {kind : TokenKind} {op : BinaryOp} (found : binaryOp? kind = some op) :
    operatorOf rules left power kind = binaryExpr rules left power := by
  unfold binaryOp? at found
  split at found <;> first | rfl | cases found

/-- The keywords that `NOT` may precede are read by the same parser. -/
lemma operatorOf_negatable {word : Keyword}
    (mem : word ∈ [Keyword.BETWEEN, .IN, .LIKE, .GLOB, .MATCH, .REGEXP]) :
    operatorOf rules left power (.keyword word) = negatable rules left false := by
  simp only [List.mem_cons, List.not_mem_nil, or_false] at mem
  rcases mem with rfl | rfl | rfl | rfl | rfl | rfl <;> rfl

/-! ## Operators of one token -/

/-- An operator of one token after it has been taken. -/
def binaryAfter (rules : Rules) (left : Expr) (power : Nat) (op : BinaryOp) : Parser Expr := do
  let right ← rules.operators (power + 1)
  return .binary left op right (left.span.merge right.span)

/-- A binary operator was read at its token, with its feature, and before its operand. -/
lemma accepted_binaryExpr {rules : Rules} {left value : Expr} {power : Nat}
    (run : (binaryExpr rules left power).run dialect cursor = .accepted value stop) :
    ∃ op, binaryOp? cursor.current.kind = some op ∧
      (op = .jsonExtract ∨ op = .jsonExtractText → dialect.supports .jsonArrows = true) ∧
      stop.ahead.length ≤ cursor.advance.ahead.length ∧
      (binaryAfter rules left power op).run dialect cursor.advance = .accepted value stop := by
  unfold binaryExpr at run
  rw [run_current_bind] at run
  split at run
  · next op found =>
    refine ⟨op, found, ?_⟩
    split at run
    · obtain ⟨has, run⟩ := accepted_require run
      obtain ⟨-, le, run⟩ := accepted_advance run
      exact ⟨fun _ => has, le, run⟩
    · next plain =>
      obtain ⟨-, le, run⟩ := accepted_advance run
      exact ⟨fun json => absurd (by simpa using json) plain, le, run⟩
  · exact absurd run not_accepted_unexpected

/-- A binary operator is read at its token, if the dialect has its feature. -/
lemma run_binaryExpr {op : BinaryOp} (found : binaryOp? cursor.current.kind = some op)
    (has : op = .jsonExtract ∨ op = .jsonExtractText → dialect.supports .jsonArrows = true) :
    (binaryExpr rules left power).run dialect cursor =
      (binaryAfter rules left power op).run dialect cursor.advance := by
  have sound : cursor.current.kind.isMalformed = false := by
    generalize cursor.current.kind = kind at found
    cases kind with
    | malformed => cases found
    | _ => rfl
  unfold binaryExpr
  rw [run_current_bind, found]
  dsimp only
  split
  · next json =>
    rw [run_require_bind (has (by simpa using json)), run_advance_bind sound]
    rfl
  · rw [run_advance_bind sound]
    rfl

end Grammar

end SqlTree
