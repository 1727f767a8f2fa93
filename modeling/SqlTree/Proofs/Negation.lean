import SqlTree.Proofs.Bounds.Rules
import SqlTree.Proofs.Operands
import SqlTree.Proofs.Precedence.Fitted
import SqlTree.Proofs.Unplaced

set_option autoImplicit false

/-!
# `NOT` before an expression

A `NOT` before an operand takes in all operators that bind tighter than it, so that it negates what
they make of the operand. `NOT EXISTS` is different: with the query after it, it is an operand by
itself, and operators after it apply to the negated test.

## Main definitions

* `SqlTree.Expr.first` — the operand that an expression starts with.
* `SqlTree.Expr.withFirst` — the expression with another operand at its start.

## Main results

* `SqlTree.Grammar.operatorAfter_rel` — what an operator makes of an operand depends on the operand
  only in that it has it at its start.
* `SqlTree.Grammar.iterate_tight` — where the operator at the root binds tighter than `NOT`, so do
  all that the loop has read.
* `SqlTree.Grammar.operators_negated` — what becomes of an expression when `NOT` is put before it.
-/

namespace SqlTree

/-! ## The start of an expression -/

namespace Expr

/-- The operand that an expression starts with, before all operators that stand after an operand. -/
def first : Expr → Expr
  | .binary left _ _ _ | .collate left _ _ | .isNull left _ _ | .like left _ _ _ _ _
  | .isIn left _ _ _ | .between left _ _ _ _ => left.first
  | expr => expr

/-- The expression with another operand at its start. -/
def withFirst : (expr operand : Expr) → Expr
  | .binary left op right span, operand => .binary (left.withFirst operand) op right span
  | .collate left collation span, operand => .collate (left.withFirst operand) collation span
  | .isNull left negated span, operand => .isNull (left.withFirst operand) negated span
  | .like left op pattern escape negated span, operand =>
    .like (left.withFirst operand) op pattern escape negated span
  | .isIn left source negated span, operand => .isIn (left.withFirst operand) source negated span
  | .between left low high negated span, operand =>
    .between (left.withFirst operand) low high negated span
  | _, operand => operand

/-- One expression has an operand at its start where the other one has another operand; apart from
that and their places they are the same. -/
structure Exchanged (old new expr other : Expr) : Prop where
  first : expr.first = old
  unplaced : other.unplaced = (expr.withFirst new).unplaced

end Expr

namespace Grammar

open SqlTree.Parser

variable {dialect : Dialect} {cursor stop : Cursor} {least power : Nat}
  {left other expr old new : Expr}

/-! ## Operators after exchanged operands -/

section

variable {rules : Rules} (same : Expr.Exchanged old new left other)

include same

/-- What `NOT` may precede is read alike after either operand. -/
lemma negatable_rel (negated : Bool) :
    (negatable rules left negated).Rel (Expr.Exchanged old new)
      (negatable rules other negated) := by
  unfold negatable
  refine .congr fun token => ?_
  dsimp only
  split
  · refine .congr fun _ => .congr fun low => .congr fun _ => .congr fun high =>
      .of_return fun _ _ => ⟨same.first, ?_⟩
    simp [Expr.unplaced, Expr.withFirst, same.unplaced]
  · refine .congr fun _ => .congr fun source => .of_return fun _ _ => ⟨same.first, ?_⟩
    simp [Expr.unplaced, Expr.withFirst, same.unplaced]
  · split
    · refine .congr fun _ => .congr fun pattern => .congr fun escape =>
        .of_return fun _ _ => ⟨same.first, ?_⟩
      simp [Expr.unplaced, Expr.withFirst, same.unplaced]
    · exact .of_unexpected

/-- Tests for null of exchanged operands are exchanged. -/
lemma exchanged_isNull {negated : Bool}
    {place place' : Span} :
    Expr.Exchanged old new (.isNull left negated place) (.isNull other negated place') :=
  ⟨same.first, by simp [Expr.unplaced, Expr.withFirst, same.unplaced]⟩

/-- Binary operations with exchanged first operands are exchanged. -/
lemma exchanged_binary {op : BinaryOp} {right : Expr} {place place' : Span} :
    Expr.Exchanged old new (.binary left op right place) (.binary other op right place') :=
  ⟨same.first, by simp [Expr.unplaced, Expr.withFirst, same.unplaced]⟩

/-- What `IS` makes is read alike after either operand. -/
lemma isExpr_rel : (isExpr rules left).Rel (Expr.Exchanged old new) (isExpr rules other) := by
  unfold isExpr
  refine .congr fun negated => .congr fun null => ?_
  split
  · exact .of_return fun _ _ => exchanged_isNull same
  · exact .congr fun distinct => .congr fun right => .of_pure (exchanged_binary same)

/-- What a binary operator makes is read alike after either operand. -/
lemma binaryExpr_rel : (binaryExpr rules left power).Rel (Expr.Exchanged old new)
    (binaryExpr rules other power) := by
  unfold binaryExpr
  refine .congr fun token => ?_
  split
  · split
    · exact .congr fun _ => .congr fun _ => .congr fun right => .of_pure (exchanged_binary same)
    · exact .congr fun _ => .congr fun right => .of_pure (exchanged_binary same)
  · exact .of_unexpected

/-- **What an operator makes of an operand** depends on the operand only in that it has it at its
start. -/
theorem operatorAfter_rel : (operatorAfter rules left power).Rel (Expr.Exchanged old new)
    (operatorAfter rules other power) := by
  unfold operatorAfter
  refine .congr fun token => ?_
  split
  · refine .congr fun _ => .congr fun collation => .of_return fun _ _ => ⟨same.first, ?_⟩
    simp [Expr.unplaced, Expr.withFirst, same.unplaced]
  · exact .congr fun _ => .of_return fun _ _ => exchanged_isNull same
  · exact .congr fun _ => .of_return fun _ _ => exchanged_isNull same
  · exact .congr fun _ => isExpr_rel same
  · refine .congr fun _ => .congr fun null => ?_
    split
    · exact .of_return fun _ _ => exchanged_isNull same
    · exact negatable_rel same true
  iterate 6
    · exact negatable_rel same false
  · exact binaryExpr_rel same

/-- A turn of the operator loop reads alike after either operand. -/
lemma nextOperator_rel : (nextOperator rules least left).Rel (Option.Rel (Expr.Exchanged old new))
    (nextOperator rules least other) := by
  unfold nextOperator
  refine .congr fun view => ?_
  split
  · split
    · exact .of_pure .none
    · exact .bind (operatorAfter_rel same) fun _ _ same' => .of_pure (.some same')
  · exact .of_pure .none

end

/-! ## `NOT EXISTS` -/

/-- Two keywords are next if the one is and the other is after it. -/
lemma atKeywords_eq {word word' : Keyword} : cursor.view.atKeywords word word' =
    (cursor.current.isKeyword word && cursor.advance.current.isKeyword word') := by
  rw [Cursor.current, Cursor.current, Cursor.peek_advance]
  rfl

/-- A test for rows is read in the same way after `NOT`, and negated. -/
lemma run_existsExpr_not {rules : Rules} (isNot : cursor.view.atKeyword .NOT = true)
    (noNot : cursor.advance.view.atKeyword .NOT = false)
    (run : (existsExpr rules).run dialect cursor.advance = .accepted expr stop) :
    ∃ query place place', expr = .existsRow query false place ∧
      (existsExpr rules).run dialect cursor = .accepted (.existsRow query true place') stop := by
  unfold existsExpr at run ⊢
  rw [run_here_bind, run_eatKeyword_bind, if_neg (by simp [noNot])] at run
  rw [run_here_bind, run_eatKeyword_bind, if_pos isNot]
  let related (value value' : Expr) : Prop := ∃ query place place',
    value = .existsRow query false place ∧ value' = .existsRow query true place'
  have rel (start start' : Span) : Rel related
      (do
        let _ ← expectKeyword .EXISTS
        let query ← parenthesized rules.query
        return .existsRow query false (← spanFrom start))
      (do
        let _ ← expectKeyword .EXISTS
        let query ← parenthesized rules.query
        return .existsRow query true (← spanFrom start')) :=
    .congr fun _ => .congr fun query => .of_return fun place place' =>
      ⟨query, place, place', rfl, rfl⟩
  obtain ⟨value', run', query, place, place', rfl, rfl⟩ := rel _ cursor.current.span run
  exact ⟨query, place, place', rfl, run'⟩

/-- A test for rows is an operand, and so is the negated test, with the `NOT` before it. -/
lemma run_operand_not_exists {rules : Rules} (isNot : cursor.current.isKeyword .NOT = true)
    (isExists : cursor.advance.current.isKeyword .EXISTS = true)
    (run : (operand rules).run dialect cursor.advance = .accepted expr stop) :
    ∃ query place place', expr = .existsRow query false place ∧
      (operand rules).run dialect cursor = .accepted (.existsRow query true place') stop := by
  have kind : cursor.advance.current.kind = .keyword .EXISTS := by
    rwa [Token.isKeyword_eq, TokenKind.isKeyword_iff] at isExists
  have noNot : cursor.advance.view.atKeyword .NOT = false := by
    change cursor.advance.current.isKeyword .NOT = false
    rw [Token.isKeyword_eq, kind]
    rfl
  have negates : cursor.view.atKeywords .NOT .EXISTS = true := by
    rw [atKeywords_eq, isNot, isExists, Bool.and_self]
  rw [run_operand_primary (by rw [kind]; rfl), run_primary_of kind] at run
  rw [operand, run_view_bind, if_pos negates]
  exact run_existsExpr_not isNot noNot run

/-- **Operators after `NOT EXISTS` apply to the negated test.** The expression is the one without
`NOT`, with the test at its start negated. -/
lemma operators_not_exists {limit depth : Nat} (isNot : cursor.current.isKeyword .NOT = true)
    (isExists : cursor.advance.current.isKeyword .EXISTS = true)
    (accepted : ((rules limit depth).operators least).run dialect cursor.advance =
      .accepted expr stop) :
    ∃ query place negated, expr.first = .existsRow query false place ∧
      ((rules limit depth).operators least).run dialect cursor = .accepted negated stop ∧
      negated.unplaced = (expr.withFirst (.existsRow query true place)).unplaced := by
  cases depth with
  | zero => exact absurd accepted not_accepted_exhausted
  | succ depth =>
    change (expression (rules limit depth) least).run dialect _ = _ at accepted
    obtain ⟨start, middle, run₁, -, run₂⟩ := accepted_bind accepted
    obtain ⟨query, place, place', rfl, run₁'⟩ := run_operand_not_exists isNot isExists run₁
    have same : Expr.Exchanged (.existsRow query false place) (.existsRow query true place)
        (.existsRow query false place) (.existsRow query true place') :=
      ⟨rfl, by simp [Expr.unplaced, Expr.withFirst]⟩
    obtain ⟨negated, run₂', same⟩ := Rel.iterate (fun _ _ => nextOperator_rel) _ same run₂
    refine ⟨query, place, negated, same.first, ?_, same.unplaced⟩
    change (expression (rules limit depth) least).run dialect cursor = _
    rw [expression, run_bind, run₁']
    exact run₂'

/-! ## `NOT` before other operands -/

section

variable {rules : Rules}

/-- An operator that `NOT` may precede has the power of equality. -/
lemma negatable_power {negated : Bool} :
    (negatable rules left negated).Yields fun expr => expr.power? = some equalityPower := by
  unfold negatable
  refine .bind fun token => ?_
  dsimp only
  split
  · refine .bind fun _ => ?_
    refine .bind fun low => ?_
    refine .bind fun _ => ?_
    refine .bind fun high => ?_
    exact .bind fun _ => .of_pure rfl
  · refine .bind fun _ => ?_
    refine .bind fun source => ?_
    exact .bind fun _ => .of_pure rfl
  · split
    · refine .bind fun _ => ?_
      refine .bind fun pattern => ?_
      refine .bind fun escape => ?_
      exact .bind fun _ => .of_pure rfl
    · exact .of_unexpected _

/-- `IS` has the power of equality. -/
lemma isExpr_power :
    (isExpr rules left).Yields fun expr => expr.power? = some equalityPower := by
  unfold isExpr
  refine .bind fun negated => ?_
  refine .bind fun null => ?_
  split
  · exact .bind fun _ => .of_pure rfl
  · refine .bind fun distinct => ?_
    refine .bind fun right => .of_pure ?_
    split <;> rfl

/-- The operator that is read stands at the root. -/
lemma operatorAfter_power (found : infixPower cursor.current.kind = some power)
    (run : (operatorAfter rules left power).run dialect cursor = .accepted expr stop) :
    expr.power? = some power := by
  rcases accepted_operatorAfter found run with ⟨rfl, collation, place, rfl⟩ |
    ⟨rfl, negated, place, rfl⟩ | ⟨rfl, inner⟩ | ⟨rfl, negated, place, inner⟩ |
    ⟨op, -, rfl, inner⟩
  · rfl
  · rfl
  · exact isExpr_power inner
  · exact negatable_power inner
  · obtain ⟨right, middle, -, -, last⟩ := accepted_bind inner
    obtain ⟨rfl, -⟩ := accepted_pure last
    rfl

/-- An operator that binds less tight than `NOT` is open at its end. -/
lemma operandPower?_of_lt (is_power : expr.power? = some power) (weak : power < UnaryOp.not.power) :
    expr.operandPower? = some (power + 1) := by
  cases expr with
  | binary left op right span =>
    obtain rfl := Option.some.inj is_power
    rfl
  | collate | isNull | like | isIn | between =>
    cases Option.some.inj is_power
    exact absurd weak (by decide)
  | _ => cases is_power

/-- **Where the operator at the root binds tighter than `NOT`, so do all that the loop has read**:
it would read the same as the operand of a `NOT`.

**Proof sketch.** From the end of the loop to its start. An operator that is followed by one that
binds tighter than `NOT` binds tighter than `NOT` itself, for otherwise its right operand would have
taken in the one that follows. -/
theorem iterate_tight (fit : rules.Fit dialect) {fuel : Nat} (fitted : Fitted least left cursor)
    (le : least ≤ UnaryOp.not.power) (tight : ∀ power ∈ expr.power?, UnaryOp.not.power ≤ power)
    (run : (iterate (nextOperator rules least) fuel left).run dialect cursor =
      .accepted expr stop) :
    (∀ power ∈ left.power?, UnaryOp.not.power ≤ power) ∧
      (iterate (nextOperator rules UnaryOp.not.power) fuel left).run dialect cursor =
        .accepted expr stop := by
  induction fuel generalizing left cursor with
  | zero => exact absurd run not_accepted_exhausted
  | succ fuel ih =>
    obtain ⟨next, middle, run₁, -, run₂⟩ := accepted_bind run
    cases next with
    | none =>
      obtain ⟨rfl, rfl⟩ := accepted_pure run₂
      obtain ⟨declines, rfl⟩ := accepted_nextOperator_none run₁
      exact ⟨tight, run_iterate_of_none (Nat.succ_pos _)
        (run_nextOperator_none (Cursor.Declines.mono declines le))⟩
    | some value =>
      obtain ⟨power, found, goes, after⟩ := accepted_nextOperator_some run₁
      obtain ⟨strong, again⟩ := ih (operatorAfter_fitted fit fitted found goes after) run₂
      have le' : UnaryOp.not.power ≤ power := strong power (operatorAfter_power found after)
      have first := run_nextOperator_some found (operatorAt_of_le goes found le') after
      refine ⟨fun weak mem => ?_, (run_iterate_of_some fuel first).trans again⟩
      by_contra lt
      have declines := fitted.closedAt left (.self left) _
        (operandPower?_of_lt mem (Nat.not_le.mp lt))
      have := lt_of_declines declines found goes
      omega

end

/-- A `NOT` before what is no test for rows is an operand, with all that binds tighter. -/
lemma run_operand_not {rules : Rules} (isNot : cursor.current.isKeyword .NOT = true)
    (noExists : cursor.advance.current.isKeyword .EXISTS = false)
    (run : (rules.operators UnaryOp.not.power).run dialect cursor.advance = .accepted expr stop) :
    (operand rules).run dialect cursor =
      .accepted (.unary .not expr (stop.spanFrom cursor.current.span)) stop := by
  have kind : cursor.current.kind = .keyword .NOT := by
    rwa [Token.isKeyword_eq, TokenKind.isKeyword_iff] at isNot
  have found : unaryOp? cursor.view.current.kind = some (.not, UnaryOp.not.power) := by
    change unaryOp? cursor.current.kind = _
    rw [kind]
    rfl
  have noTest : cursor.view.atKeywords .NOT .EXISTS = false := by
    rw [atKeywords_eq, noExists, Bool.and_false]
  rw [operand, run_view_bind, if_neg (by simp [noTest]), found]
  dsimp only
  rw [run_advance_bind (by rw [kind]; rfl), run_bind, run]
  rfl

/-- **A `NOT` negates all that binds tighter.** -/
lemma operators_not {limit depth : Nat} (isNot : cursor.current.isKeyword .NOT = true)
    (noExists : cursor.advance.current.isKeyword .EXISTS = false) (le : least ≤ UnaryOp.not.power)
    (tight : ∀ power ∈ expr.power?, UnaryOp.not.power ≤ power)
    (accepted : ((rules limit depth).operators least).run dialect cursor.advance =
      .accepted expr stop) :
    ∃ place, ((rules limit (depth + 1)).operators least).run dialect cursor =
      .accepted (.unary .not expr place) stop := by
  have declines : stop.Declines least := (rules_fit limit depth accepted).2
  cases depth with
  | zero => exact absurd accepted not_accepted_exhausted
  | succ depth =>
    change (expression (rules limit depth) least).run dialect _ = _ at accepted
    obtain ⟨start, middle, run₁, -, run₂⟩ := accepted_bind accepted
    have fit : (rules limit depth).Fit dialect := rules_fit limit depth
    have again := (iterate_tight fit (operand_fitted fit run₁) le tight run₂).2
    have inner : ((rules limit (depth + 1)).operators UnaryOp.not.power).run dialect
        cursor.advance = .accepted expr stop := by
      change (expression (rules limit depth) UnaryOp.not.power).run dialect _ = _
      rw [expression, run_bind, run₁]
      exact again
    refine ⟨stop.spanFrom cursor.current.span, ?_⟩
    change (expression (rules limit (depth + 1)) least).run dialect cursor = _
    rw [expression, run_bind, run_operand_not isNot noExists inner]
    -- the loop has read all that it may read
    refine run_iterate_of_none ?_ (run_nextOperator_none declines)
    rw [limit_rules] at run₂ ⊢
    cases limit with
    | zero => exact absurd run₂ not_accepted_exhausted
    | succ limit => exact Nat.succ_pos _

/-! ## What becomes of an expression -/

/-- **`NOT` before an expression.** Take a place where an expression is read, with a `NOT` before
it. If the expression starts with a test for rows, then with the `NOT` it is the same expression,
but for that test, which is negated: operators after the test, however tight they bind, apply to the
negated test. Otherwise, if the operator at the root binds tighter than `NOT`, the `NOT` negates the
whole expression. -/
theorem operators_negated {dialect : Dialect} {limit depth least : Nat} {cursor stop : Cursor}
    {expr : Expr} (isNot : cursor.current.isKeyword .NOT = true)
    (accepted : ((rules limit depth).operators least).run dialect cursor.advance =
      .accepted expr stop) :
    (cursor.advance.current.isKeyword .EXISTS = true →
      ∃ query place negated, expr.first = .existsRow query false place ∧
        ((rules limit depth).operators least).run dialect cursor = .accepted negated stop ∧
        negated.unplaced = (expr.withFirst (.existsRow query true place)).unplaced) ∧
    (cursor.advance.current.isKeyword .EXISTS = false → least ≤ UnaryOp.not.power →
      (∀ power ∈ expr.power?, UnaryOp.not.power ≤ power) →
      ∃ place, ((rules limit (depth + 1)).operators least).run dialect cursor =
        .accepted (.unary .not expr place) stop) :=
  ⟨fun isExists => operators_not_exists isNot isExists accepted,
    fun noExists le tight => operators_not isNot noExists le tight accepted⟩

section

/-- The query of `NOT EXISTS (SELECT 1) = 1`. -/
private def queryOfOne : Query :=
  let one : ResultColumn := .expression (.literal (.integer 1) ⟨19, 20, 1, 20⟩) none none
    ⟨19, 20, 1, 20⟩
  ⟨none, .select ⟨false, [one], none, none, [], none, [], ⟨12, 20, 1, 13⟩⟩, [], none, none,
    ⟨12, 20, 1, 13⟩⟩

/-- What stands after `NOT` in `NOT EXISTS (SELECT 1) = 1`. -/
private def testComparison : Expr :=
  .binary (.existsRow queryOfOne false ⟨4, 21, 1, 5⟩) .eq (.literal (.integer 1) ⟨24, 25, 1, 25⟩)
    ⟨4, 25, 1, 5⟩

/-- What stands after `NOT` in `NOT a = 1`. -/
private def columnComparison : Expr :=
  .binary (.reference none none "a" ⟨4, 5, 1, 5⟩) .eq (.literal (.integer 1) ⟨8, 9, 1, 9⟩)
    ⟨4, 9, 1, 5⟩

/-- A comparison of a negated test for rows, and a negated comparison of a column. -/
theorem operators_negated_comparisons :
    (((rules 9 9).operators 0).run .generic
        (Cursor.ofSource false "NOT EXISTS (SELECT 1) = 1").advance =
      .accepted testComparison (Cursor.advance^[8] (.ofSource false "NOT EXISTS (SELECT 1) = 1")) ∧
    ∃ query place negated, testComparison.first = .existsRow query false place ∧
      ((rules 9 9).operators 0).run .generic (.ofSource false "NOT EXISTS (SELECT 1) = 1") =
        .accepted negated (Cursor.advance^[8] (.ofSource false "NOT EXISTS (SELECT 1) = 1")) ∧
      negated.unplaced = (testComparison.withFirst (.existsRow query true place)).unplaced) ∧
    ((rules 5 5).operators 0).run .generic (Cursor.ofSource false "NOT a = 1").advance =
      .accepted columnComparison (Cursor.advance^[4] (.ofSource false "NOT a = 1")) ∧
    ∃ place, ((rules 5 6).operators 0).run .generic (.ofSource false "NOT a = 1") =
      .accepted (.unary .not columnComparison place)
        (Cursor.advance^[4] (.ofSource false "NOT a = 1")) :=
  ⟨⟨rfl, (operators_negated rfl rfl).1 rfl⟩, rfl,
    (operators_negated rfl rfl).2 rfl (Nat.zero_le _) (by decide)⟩

/-- A comparison after `NOT EXISTS` is not negated. -/
theorem not_exists_comparison :
    Expr.parse .generic "NOT EXISTS (SELECT 1) = 1" =
      .ok (.binary (.existsRow queryOfOne true ⟨0, 21, 1, 1⟩) .eq
        (.literal (.integer 1) ⟨24, 25, 1, 25⟩) ⟨0, 25, 1, 1⟩) ∧
    ∀ comparison place,
      Expr.parse .generic "NOT EXISTS (SELECT 1) = 1" ≠ .ok (.unary .not comparison place) := by
  have read : Expr.parse .generic "NOT EXISTS (SELECT 1) = 1" =
      .ok (.binary (.existsRow queryOfOne true ⟨0, 21, 1, 1⟩) .eq
        (.literal (.integer 1) ⟨24, 25, 1, 25⟩) ⟨0, 25, 1, 1⟩) := rfl
  refine ⟨read, fun comparison place negated => ?_⟩
  cases read.symm.trans negated

end

end Grammar

end SqlTree
