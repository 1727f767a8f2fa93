import SqlTree.Grammar.Knot
import SqlTree.Proofs.Precedence.Ranked

set_option autoImplicit false

/-!
# Reading ranked expressions

The loop over operators keeps one invariant. What has been read is ranked, its operator has the
power that is asked for, and nothing that is open at its end takes in the operator that comes next:
an operand was ended because it declined that operator. So whatever the loop reads next fits what
has been read.

A `NOT` after an operand that starts no operator ends all loops, however great its power is, so an
operand may well decline it.

## Main definitions

* `SqlTree.Cursor.Declines` — no operator of some power goes on here.
* `SqlTree.Grammar.Fitted` — the invariant.

## Main results

* `SqlTree.Grammar.accepted_operatorAfter` — what an operator after an operand can be.
* `SqlTree.Grammar.operatorAfter_fitted` — an operator keeps the invariant.
* `SqlTree.Grammar.rules_fit` — the rules of every depth read expressions that are fitted.
-/

namespace SqlTree

/-- Here, after an operand, no operator goes on that has at least this power. -/
def Cursor.Declines (cursor : Cursor) (least : Nat) : Prop :=
  operatorAt least (cursor.peek 0).kind (cursor.peek 1).kind = false

/-- What declines operators of some power declines all that are tighter. -/
lemma Cursor.Declines.mono {cursor : Cursor} {least bound : Nat} (declines : cursor.Declines least)
    (le : least ≤ bound) : cursor.Declines bound := by
  by_contra goes
  rw [Cursor.Declines, Bool.not_eq_false] at goes
  cases found : Grammar.infixPower (cursor.peek 0).kind with
  | none => simp [operatorAt, found] at goes
  | some power =>
    have tight := Nat.le_trans le (le_of_operatorAt goes found)
    exact absurd (declines.symm.trans (operatorAt_of_le goes found tight)) Bool.false_ne_true

namespace Grammar

open SqlTree.Parser

variable {dialect : Dialect} {rules : Rules} {cursor stop : Cursor} {least power : Nat}
  {left expr : Expr}

/-- What is declined where an operator goes on has greater power than it. -/
lemma lt_of_declines {declined : Nat} (declines : cursor.Declines declined)
    (found : infixPower cursor.current.kind = some power)
    (goes : operatorAt least (cursor.peek 0).kind (cursor.peek 1).kind = true) :
    power < declined := by
  by_contra not
  have at_ := operatorAt_of_le goes found (Nat.not_lt.mp not)
  exact absurd (declines.symm.trans at_) Bool.false_ne_true

/-! ## What an operator can be -/

/-- An operator has its own power, and it is read by the parser for operators of its kind.

**Proof sketch.** By the kind of the next token. Each keyword that is an operator has one power, so
`power` is this one, and the run is that of the parser for its kind. Every other operator is a
binary one. -/
lemma accepted_operatorAfter (found : infixPower cursor.current.kind = some power)
    (run : (operatorAfter rules left power).run dialect cursor = .accepted expr stop) :
    (power = collatePower ∧ ∃ collation place, expr = .collate left collation place) ∨
    (power = equalityPower ∧ ∃ negated place, expr = .isNull left negated place) ∨
    (power = equalityPower ∧
      (isExpr rules left).run dialect cursor.advance = .accepted expr stop) ∨
    (power = equalityPower ∧ ∃ negated place,
      (negatable rules left negated).run dialect place = .accepted expr stop) ∨
    ∃ op, binaryOp? cursor.current.kind = some op ∧ op.power = power ∧
      (binaryAfter rules left power op).run dialect cursor.advance = .accepted expr stop := by
  have power_of {word : Keyword} {other : Nat} (kind : cursor.current.kind = .keyword word)
      (is_power : infixPower (.keyword word) = some other) : power = other :=
    Option.some.inj (found.symm.trans (kind ▸ is_power))
  unfold operatorAfter at run
  rw [run_current_bind] at run
  split at run
  · next kind =>
    obtain ⟨-, -, run⟩ := accepted_advance run
    obtain ⟨collation, middle, -, -, last⟩ := accepted_bind run
    exact .inl ⟨power_of kind rfl, collation, _, (accepted_return last).1.symm⟩
  · next kind =>
    obtain ⟨-, -, last⟩ := accepted_advance run
    exact .inr (.inl ⟨power_of kind rfl, false, _, (accepted_return last).1.symm⟩)
  · next kind =>
    obtain ⟨-, -, last⟩ := accepted_advance run
    exact .inr (.inl ⟨power_of kind rfl, true, _, (accepted_return last).1.symm⟩)
  · next kind =>
    obtain ⟨-, -, run⟩ := accepted_advance run
    exact .inr (.inr (.inl ⟨power_of kind rfl, run⟩))
  · next kind =>
    obtain ⟨-, -, run⟩ := accepted_advance run
    obtain ⟨null, middle, -, -, run⟩ := accepted_bind run
    split at run
    · exact .inr (.inl ⟨power_of kind rfl, true, _, (accepted_return run).1.symm⟩)
    · exact .inr (.inr (.inr (.inl ⟨power_of kind rfl, true, _, run⟩)))
  iterate 6
    · next kind => exact .inr (.inr (.inr (.inl ⟨power_of kind rfl, false, _, run⟩)))
  · obtain ⟨op, is_op, -, -, run⟩ := accepted_binaryExpr run
    have is_power := Option.some.inj ((infixPower_of_binaryOp? is_op).symm.trans found)
    exact .inr (.inr (.inr (.inr ⟨op, is_op, is_power, run⟩)))

/-! ## The invariant -/

/-- Nothing that is open at the end of an expression takes in what comes next. -/
def ClosedAt (expr : Expr) (stop : Cursor) : Prop :=
  ∀ part, expr.OnEdge part → ∀ power ∈ part.operandPower?, stop.Declines power

/-- An expression has been read as it should, as far as its operators have at least this power. -/
structure Fitted (least : Nat) (expr : Expr) (stop : Cursor) : Prop where
  least_le : ∀ power ∈ expr.power?, least ≤ power
  closedAt : ClosedAt expr stop
  ranked : expr.Throughout Expr.Ranked

/-- Whatever the rules accept has been read as it should, to the end. -/
def Rules.Fit (dialect : Dialect) (rules : Rules) : Prop :=
  ∀ ⦃least cursor expr stop⦄, (rules.operators least).run dialect cursor = .accepted expr stop →
    Fitted least expr stop ∧ stop.Declines least

namespace ClosedAt

/-- An expression without a right end is closed everywhere. -/
lemma of_none (last : expr.last? = none) (power : expr.operandPower? = none) :
    ClosedAt expr stop := by
  intro part edge least
  cases edge with
  | self => simp [power]
  | last found => rw [last] at found; cases found

/-- An expression that ends with an operand is open where the operand is, and at the operand. -/
lemma of_last {operand : Expr} (last : expr.last? = some operand)
    (is_power : expr.operandPower? = some power) (declines : stop.Declines power)
    (closedAt : ClosedAt operand stop) : ClosedAt expr stop := by
  intro part edge least mem
  cases edge with
  | self =>
    rw [is_power, Option.mem_some_iff] at mem
    exact mem ▸ declines
  | last found below =>
    obtain rfl := Option.some.inj (last.symm.trans found)
    exact closedAt part below least mem

end ClosedAt

namespace Fitted

/-- A closed expression fits every power. -/
lemma of_closed (closed : expr.isClosed = true) : Fitted least expr stop where
  least_le := by simp [Expr.power?_of_closed closed]
  closedAt := .of_none (Expr.last?_of_closed closed) (Expr.operandPower?_of_closed closed)
  ranked := (Expr.throughout_of_closed closed).mpr (Expr.ranked_of_closed closed)

/-- An operand after an operator fits the operator. -/
lemma lt_power (fitted : Fitted (power + 1) expr stop) : ∀ inner ∈ expr.power?, power < inner :=
  fitted.least_le

/-- An operator that goes on with an expression fits it. -/
lemma ranked_node {node : Expr} (fitted : Fitted least left cursor)
    (found : infixPower cursor.current.kind = some power)
    (goes : operatorAt least (cursor.peek 0).kind (cursor.peek 1).kind = true)
    (is_power : node.power? = some power) (is_left : node.left? = some left)
    (others : ∀ operand ∈ node.others, ∀ inner ∈ operand.power?, power < inner) :
    node.Ranked where
  others := by
    intro power' mem
    rw [is_power, Option.mem_some_iff] at mem
    exact mem ▸ others
  left := by
    intro power' mem operand mem' part edge declined mem''
    rw [is_power, Option.mem_some_iff] at mem
    rw [is_left, Option.mem_some_iff] at mem'
    subst mem mem'
    exact lt_of_declines (fitted.closedAt part edge declined mem'') found goes

/-- **What an operator makes of a fitted operand is fitted**, if its other operands are. -/
lemma node {node : Expr} (fitted : Fitted least left cursor)
    (found : infixPower cursor.current.kind = some power)
    (goes : operatorAt least (cursor.peek 0).kind (cursor.peek 1).kind = true)
    (is_power : node.power? = some power) (is_left : node.left? = some left)
    (operands : ∀ operand ∈ node.operands, operand = left ∨ operand ∈ node.others ∨
      operand.isClosed = true)
    (others : ∀ operand ∈ node.others, (∀ inner ∈ operand.power?, power < inner) ∧
      operand.Throughout Expr.Ranked)
    (closedAt : ClosedAt node stop) : Fitted least node stop where
  least_le := by
    intro power' mem
    rw [is_power, Option.mem_some_iff] at mem
    exact mem ▸ le_of_operatorAt goes found
  closedAt := closedAt
  ranked := by
    have own := fitted.ranked_node found goes is_power is_left fun operand mem =>
      (others operand mem).1
    refine Expr.throughout_iff.mpr ⟨own, fun operand mem => ?_⟩
    rcases operands operand mem with rfl | other | closed
    · exact fitted.ranked
    · exact (others operand other).2
    · exact (Expr.throughout_of_closed closed).mpr (Expr.ranked_of_closed closed)

end Fitted

/-! ## Operands -/

/-- A variable is closed. -/
lemma variableExpr_closed : variableExpr.Yields fun expr => expr.isClosed = true := by
  unfold variableExpr
  refine .bind fun view => ?_
  split
  · split
    · refine .bind fun drift => ?_
      split <;> exact .bind fun _ => .of_pure rfl
    · exact .bind fun _ => .of_pure rfl
  · exact .of_unexpected _

/-- An expression in parentheses is closed, and so is a query or a list. -/
lemma parenthesizedExpr_closed :
    (parenthesizedExpr rules).Yields fun expr => expr.isClosed = true := by
  unfold parenthesizedExpr
  refine .bind fun start => ?_
  refine .bind fun isQuery => ?_
  split
  · refine .bind fun query => ?_
    refine .bind fun _ => ?_
    exact .bind fun _ => .of_pure rfl
  · refine .bind fun first => ?_
    refine .bind fun more => ?_
    split
    · refine .bind fun rest => ?_
      refine .bind fun _ => ?_
      exact .bind fun _ => .of_pure rfl
    · refine .bind fun _ => ?_
      exact .bind fun _ => .of_pure rfl

/-- A call is closed. -/
lemma functionCall_closed : (functionCall rules).Yields fun expr => expr.isClosed = true := by
  unfold functionCall
  refine .bind fun token => ?_
  refine .bind fun call => ?_
  refine .bind fun filter => ?_
  refine .bind fun isOver => ?_
  split
  · refine .bind fun start => ?_
    refine .bind fun _ => ?_
    split
    · exact .of_invalid _ _
    · refine .bind fun _ => ?_
      refine .bind fun window => ?_
      exact .bind fun _ => .of_pure rfl
  · split <;> exact .bind fun _ => .of_pure rfl

/-- A reference to a column is closed. -/
lemma reference_closed : reference.Yields fun expr => expr.isClosed = true := by
  unfold reference
  refine .bind fun start => ?_
  refine .bind fun first => ?_
  refine .bind fun more => ?_
  split
  · refine .bind fun second => ?_
    refine .bind fun more => ?_
    split
    · refine .bind fun third => ?_
      exact .bind fun _ => .of_pure rfl
    · exact .bind fun _ => .of_pure rfl
  · exact .bind fun _ => .of_pure rfl

/-- A `CASE` expression is closed. -/
lemma caseExpr_closed : (caseExpr rules).Yields fun expr => expr.isClosed = true := by
  unfold caseExpr
  refine .bind fun start => ?_
  refine .bind fun operand => ?_
  refine .bind fun branches => ?_
  split
  · exact .of_unexpected _
  · refine .bind fun otherwise => ?_
    refine .bind fun _ => ?_
    exact .bind fun _ => .of_pure rfl

/-- An `EXISTS` test is closed. -/
lemma existsExpr_closed : (existsExpr rules).Yields fun expr => expr.isClosed = true := by
  unfold existsExpr
  refine .bind fun start => ?_
  refine .bind fun negated => ?_
  refine .bind fun _ => ?_
  refine .bind fun query => ?_
  exact .bind fun _ => .of_pure rfl

/-- `RAISE` is closed. -/
lemma raiseExpr_closed : (raiseExpr rules).Yields fun expr => expr.isClosed = true := by
  unfold raiseExpr
  refine .bind fun start => ?_
  refine .bind fun _ => ?_
  refine .bind fun token => ?_
  split
  · refine .bind fun _ => ?_
    refine .bind fun message => ?_
    refine .bind fun _ => ?_
    exact .bind fun _ => .of_pure rfl
  · exact .of_unexpected _

/-- A `CAST` is closed. -/
lemma castExpr_closed : (castExpr rules).Yields fun expr => expr.isClosed = true := by
  unfold castExpr
  refine .bind fun start => ?_
  refine .bind fun _ => ?_
  refine .bind fun operand => ?_
  refine .bind fun _ => ?_
  refine .bind fun type => ?_
  refine .bind fun _ => ?_
  exact .bind fun _ => .of_pure rfl

/-- An operand without operators is closed. -/
lemma primary_closed : (primary rules).Yields fun expr => expr.isClosed = true := by
  unfold primary
  refine .bind fun view => ?_
  split
  · exact .bind fun _ => .of_pure rfl
  · split
    · exact parenthesizedExpr_closed
    · exact caseExpr_closed
    · exact castExpr_closed
    · exact existsExpr_closed
    · split
      · exact raiseExpr_closed
      · split
        · exact functionCall_closed
        · split
          · exact reference_closed
          · exact variableExpr_closed

section

variable (fit : rules.Fit dialect)

include fit

/-- An operand under operators before it ends where its last operand does. -/
lemma operand_fitted (run : (operand rules).run dialect cursor = .accepted expr stop) :
    Fitted least expr stop := by
  unfold operand at run
  rw [run_view_bind] at run
  split at run
  · exact .of_closed (existsExpr_closed run)
  · split at run
    · next op power found =>
      obtain ⟨-, -, run⟩ := accepted_advance run
      dsimp only at run
      obtain ⟨inner, middle, run₁, -, last⟩ := accepted_bind run
      obtain ⟨rfl, rfl⟩ := accepted_return last
      obtain ⟨fitted, declines⟩ := fit run₁
      obtain rfl := power_of_unaryOp? found
      refine ⟨by simp [Expr.power?], .of_last rfl rfl declines fitted.closedAt, ?_⟩
      refine Expr.throughout_iff.mpr ⟨⟨by simp [Expr.power?], by simp [Expr.power?]⟩, ?_⟩
      simpa [Expr.operands] using fitted.ranked
    · exact .of_closed (primary_closed run)

/-! ## Operators -/

omit fit in
/-- The operands of a membership are the one before it and a variable.

**Proof sketch.** By what the membership is tested in. If it is a variable, it was read by
`variableExpr`, and a variable is closed. A query, a list or a table adds no operand. -/
lemma inSource_operands {source : InSource} {negated : Bool} {span : Span}
    (run : (inSource rules).run dialect cursor = .accepted source stop) :
    ∀ operand ∈ (Expr.isIn left source negated span).operands,
      operand = left ∨ operand.isClosed = true := by
  cases source with
  | «variable» which =>
    unfold inSource at run
    rw [run_view_bind] at run
    split at run
    · unfold parenthesized at run
      obtain ⟨-, -, run⟩ := accepted_expectSymbol run
      obtain ⟨value, middle, run₁, -, run⟩ := accepted_bind run
      obtain ⟨-, -, last⟩ := accepted_expectSymbol run
      obtain ⟨rfl, -⟩ := accepted_pure last
      rw [run_sees_bind] at run₁
      split at run₁
      · cases (accepted_pure run₁).1
      · rw [run_sees_bind] at run₁
        split at run₁ <;> obtain ⟨inner, place, -, -, last⟩ := accepted_bind run₁ <;>
          cases (accepted_pure last).1
    · split at run
      · obtain ⟨inner, middle, run₁, -, last⟩ := accepted_bind run
        obtain ⟨eq, -⟩ := accepted_pure last
        obtain rfl := InSource.variable.inj eq
        simp [Expr.operands, variableExpr_closed run₁]
      · split at run
        · obtain ⟨inner, middle, -, -, last⟩ := accepted_bind run
          cases (accepted_return last).1
        · exact absurd run not_accepted_unexpected
  | _ => simp [Expr.operands, Expr.left?, Expr.others]

variable (fitted : Fitted least left cursor)
  (found : infixPower cursor.current.kind = some power)
  (goes : operatorAt least (cursor.peek 0).kind (cursor.peek 1).kind = true)

include fitted found goes

omit fit in
/-- An operator without further operands is fitted wherever it ends. -/
lemma fitted_postfix {node : Expr} (is_power : node.power? = some power)
    (is_left : node.left? = some left) (operands : node.operands = [left])
    (others : node.others = []) (last : node.last? = none)
    (open? : node.operandPower? = none) : Fitted least node stop :=
  fitted.node found goes is_power is_left (by simp [operands]) (by simp [others])
    (.of_none last open?)

omit fit in
/-- A binary operator is fitted where its right operand is. -/
lemma fitted_binary {op : BinaryOp} {right : Expr} {span : Span} (is_power : op.power = power)
    (right_fitted : Fitted (power + 1) right stop) (declines : stop.Declines (power + 1)) :
    Fitted least (.binary left op right span) stop := by
  subst is_power
  refine fitted.node found goes rfl rfl ?_ ?_ (.of_last rfl rfl declines right_fitted.closedAt)
  · simp [Expr.operands, Expr.left?, Expr.others]
  · simpa [Expr.others] using ⟨right_fitted.lt_power, right_fitted.ranked⟩

/-- What an operator makes that `NOT` may precede fits the powers of its operands.

**Proof sketch.** By the keyword that was next. A range ends with its upper bound, and a match with
its pattern or with what follows `ESCAPE`. Each of these was read with its own least power, so it
fits and ends where the whole expression does. A membership ends with what it is tested in, which is
closed (`inSource_operands`). -/
lemma negatable_fitted {negated : Bool} {place : Cursor} (is_power : power = equalityPower)
    (run : (negatable rules left negated).run dialect place = .accepted expr stop) :
    Fitted least expr stop := by
  subst is_power
  unfold negatable at run
  rw [run_current_bind] at run
  dsimp only at run
  split at run
  · -- a range ends with its upper bound
    obtain ⟨-, -, run⟩ := accepted_advance run
    obtain ⟨low, place₁, run₁, -, run⟩ := accepted_bind run
    obtain ⟨-, -, run⟩ := accepted_expectKeyword run
    obtain ⟨high, place₂, run₂, -, last⟩ := accepted_bind run
    obtain ⟨rfl, rfl⟩ := accepted_return last
    obtain ⟨low_fitted, -⟩ := fit run₁
    obtain ⟨high_fitted, declines⟩ := fit run₂
    refine fitted.node found goes rfl rfl ?_ ?_ (.of_last rfl rfl declines high_fitted.closedAt)
    · simp [Expr.operands, Expr.left?, Expr.others]
    · simpa [Expr.others] using ⟨⟨low_fitted.lt_power, low_fitted.ranked⟩, high_fitted.lt_power,
        high_fitted.ranked⟩
  · -- membership ends with a bracket or a name
    obtain ⟨-, -, run⟩ := accepted_advance run
    obtain ⟨source, place₁, run₁, -, last⟩ := accepted_bind run
    obtain ⟨rfl, rfl⟩ := accepted_return last
    refine fitted.node found goes rfl rfl (fun operand mem => ?_) (by simp [Expr.others])
      (.of_none rfl rfl)
    exact (inSource_operands run₁ operand mem).imp id .inr
  · split at run
    · next op _ =>
      -- a pattern ends with the escape character, if one is stated
      obtain ⟨-, -, run⟩ := accepted_advance run
      obtain ⟨pattern, place₁, run₁, -, run⟩ := accepted_bind run
      obtain ⟨escape, place₂, run₂, -, last⟩ := accepted_bind run
      obtain ⟨rfl, rfl⟩ := accepted_return last
      obtain ⟨pattern_fitted, declines⟩ := fit run₁
      unfold afterKeyword at run₂
      rw [run_eatKeyword_bind] at run₂
      split at run₂
      · obtain ⟨value, place₃, run₃, -, last⟩ := accepted_bind run₂
        obtain ⟨rfl, rfl⟩ := accepted_pure last
        obtain ⟨escape_fitted, declines⟩ := fit run₃
        refine fitted.node found goes rfl rfl ?_ ?_
          (.of_last rfl rfl declines escape_fitted.closedAt)
        · simp [Expr.operands, Expr.left?, Expr.others]
        · simpa [Expr.others] using ⟨⟨pattern_fitted.lt_power, pattern_fitted.ranked⟩,
            escape_fitted.lt_power, escape_fitted.ranked⟩
      · obtain ⟨rfl, rfl⟩ := accepted_pure run₂
        refine fitted.node found goes rfl rfl ?_ ?_
          (.of_last rfl rfl declines pattern_fitted.closedAt)
        · simp [Expr.operands, Expr.left?, Expr.others]
        · simpa [Expr.others] using ⟨pattern_fitted.lt_power, pattern_fitted.ranked⟩
    · exact absurd run not_accepted_unexpected

/-- What `IS` makes fits the powers of its operands. -/
lemma isExpr_fitted {place : Cursor} (is_power : power = equalityPower)
    (run : (isExpr rules left).run dialect place = .accepted expr stop) :
    Fitted least expr stop := by
  subst is_power
  unfold isExpr at run
  obtain ⟨negated, place₁, -, -, run⟩ := accepted_bind run
  obtain ⟨null, place₂, -, -, run⟩ := accepted_bind run
  split at run
  · obtain ⟨rfl, rfl⟩ := accepted_return run
    exact fitted_postfix fitted found goes rfl rfl rfl rfl rfl rfl
  · obtain ⟨distinct, place₃, -, -, run⟩ := accepted_bind run
    obtain ⟨right, place₄, run₁, -, last⟩ := accepted_bind run
    obtain ⟨rfl, rfl⟩ := accepted_pure last
    obtain ⟨right_fitted, declines⟩ := fit run₁
    exact fitted_binary fitted found goes (by split <;> rfl) right_fitted declines

/-- **An operator keeps the invariant of the loop.** -/
lemma operatorAfter_fitted
    (run : (operatorAfter rules left power).run dialect cursor = .accepted expr stop) :
    Fitted least expr stop := by
  rcases accepted_operatorAfter found run with ⟨rfl, collation, place, rfl⟩ |
    ⟨rfl, negated, place, rfl⟩ | ⟨is_power, run⟩ | ⟨is_power, negated, place, run⟩ |
    ⟨op, -, is_power, run⟩
  · exact fitted_postfix fitted found goes rfl rfl rfl rfl rfl rfl
  · exact fitted_postfix fitted found goes rfl rfl rfl rfl rfl rfl
  · exact isExpr_fitted fit fitted found goes is_power run
  · exact negatable_fitted fit fitted found goes is_power run
  · obtain ⟨right, middle, run₁, -, last⟩ := accepted_bind run
    obtain ⟨rfl, rfl⟩ := accepted_pure last
    obtain ⟨right_fitted, declines⟩ := fit run₁
    exact fitted_binary fitted found goes is_power right_fitted declines

end

/-! ## Expressions -/

/-- The loop keeps its invariant. -/
lemma loops_fitted (fit : rules.Fit dialect) (fitted : Fitted least left cursor)
    (loops : Loops dialect (nextOperator rules least) left cursor expr stop) :
    Fitted least expr stop := by
  induction loops with
  | refl => exact fitted
  | step first _ ih =>
    obtain ⟨power, found, goes, run⟩ := accepted_nextOperator_some first
    exact ih (operatorAfter_fitted fit fitted found goes run)

/-- The rules of every depth read expressions that are fitted. -/
lemma rules_fit (limit depth : Nat) : (Grammar.rules limit depth).Fit dialect := by
  induction depth with
  | zero => exact fun _ _ _ _ run => absurd run not_accepted_exhausted
  | succ depth ih =>
    intro least cursor expr stop run
    change (expression (Grammar.rules limit depth) least).run dialect cursor = _ at run
    obtain ⟨first, middle, run₁, -, run₂⟩ := accepted_bind run
    obtain ⟨place, loops, ends⟩ := accepted_iterate run₂
    obtain ⟨declines, rfl⟩ := accepted_nextOperator_none ends
    exact ⟨loops_fitted ih (operand_fitted ih run₁) loops, declines⟩

end Grammar

end SqlTree
