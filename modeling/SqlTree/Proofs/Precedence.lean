import SqlTree.Proofs.Origins.Query

set_option autoImplicit false

/-!
# Precedence

Whatever is accepted as an expression is ranked, at every depth: the operators stand next to one
another as their powers say. That holds of parts outside of brackets by the invariant of the loop
over operators, and of all others because each of them is a state of that loop, when it was read.

## Main results

* `SqlTree.Grammar.operators_ranked` — accepted expressions are ranked throughout.
-/

namespace SqlTree

open Grammar

/-- A `NOT` before an operand binds less tight than all operators but `AND` and `OR`. -/
lemma Expr.Ranked.of_open_not {part left operand : Expr} {span : Span} (ranked : part.Ranked)
    (is_left : part.left? = some left) (open_ : left.OnEdge (.unary .not operand span)) :
    ∃ op right place, part = .binary left op right place ∧ (op = .and ∨ op = .or) := by
  have weak : ∀ power ∈ part.power?, power < 5 := fun power mem =>
    ranked.left power mem left is_left _ open_ _ rfl
  cases part with
  | binary other op right place =>
    obtain rfl := Option.some.inj is_left
    have weak := weak op.power rfl
    refine ⟨op, right, place, rfl, ?_⟩
    cases op <;> simp [BinaryOp.power, equalityPower] at weak ⊢
  | collate | isNull | like | isIn | between =>
    simp [Expr.power?, collatePower, equalityPower] at weak
  | _ => cases is_left

namespace Grammar

/-- An operand with the operators after it is fitted. -/
lemma Chained.fitted {site : Site} {limit depth least : Nat} {cursor stop : Cursor} {expr : Expr}
    (chain : Chained site (rules limit depth) least cursor expr stop) : Fitted least expr stop := by
  induction chain with
  | operand here run => exact operand_fitted (rules_fit limit depth) run
  | operator before run ih =>
    obtain ⟨power, found, goes, run⟩ := accepted_nextOperator_some run
    exact operatorAfter_fitted (rules_fit limit depth) ih found goes run

/-- **Accepted expressions are ranked.** The operator at the root has at least the power that is
asked for. Everywhere in the expression, what stands after an operator binds tighter than the
operator, and so does what is open at the right end of what stands before it; so a `NOT` before an
operand is left open only before `AND` and `OR`. -/
theorem operators_ranked {dialect : Dialect} {limit depth least : Nat} {cursor stop : Cursor}
    {expr : Expr}
    (accepted : ((rules limit depth).operators least).run dialect cursor = .accepted expr stop) :
    (∀ power ∈ expr.power?, least ≤ power) ∧
      ∀ part, .expr part ∈ (Node.expr expr).walk → part.Ranked ∧
        ∀ left operand span, part.left? = some left → left.OnEdge (.unary .not operand span) →
          ∃ op right place, part = .binary left op right place ∧ (op = .and ∨ op = .or) := by
  refine ⟨(rules_fit limit depth accepted).1.least_le, fun part mem => ?_⟩
  have read : (Node.expr part).IsRead (.anywhere dialect) :=
    (rules_traced (.anywhere dialect) limit depth).operators least trivial accepted trivial _ mem
  cases read with
  | expr chain =>
    have ranked : part.Ranked := chain.fitted.ranked part (.self part)
    exact ⟨ranked, fun left operand span is_left open_ => ranked.of_open_not is_left open_⟩

/-- A comparison ends before `AND` although a `NOT` is open in front of it. -/
theorem operators_ranked_not :
    let negated := Expr.unary .not (.binary (.reference none none "a" ⟨4, 5, 1, 5⟩) .eq
      (.reference none none "b" ⟨6, 7, 1, 7⟩) ⟨4, 7, 1, 5⟩) ⟨0, 7, 1, 1⟩
    let whole := Expr.binary negated .and (.reference none none "c" ⟨12, 13, 1, 13⟩) ⟨0, 13, 1, 1⟩
    ((rules 7 7).operators 1).run .generic (.ofSource false "NOT a=b AND c") =
        .accepted whole (Cursor.advance^[6] (.ofSource false "NOT a=b AND c")) ∧
      .expr whole ∈ (Node.expr whole).walk ∧ negated.OnEdge negated ∧ whole.Ranked ∧
      ∃ op right place, whole = .binary negated op right place ∧ (op = .and ∨ op = .or) := by
  intro negated whole
  have accepted : ((rules 7 7).operators 1).run .generic (.ofSource false "NOT a=b AND c") =
      .accepted whole (Cursor.advance^[6] (.ofSource false "NOT a=b AND c")) := rfl
  have mem : .expr whole ∈ (Node.expr whole).walk := by
    rw [Node.walk_eq]
    exact List.mem_cons_self
  obtain ⟨ranked, weak⟩ := (operators_ranked accepted).2 whole mem
  exact ⟨accepted, mem, .self negated, ranked, weak negated _ _ rfl (.self negated)⟩

end Grammar

end SqlTree
