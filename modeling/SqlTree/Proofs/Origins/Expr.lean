import SqlTree.Proofs.Origins.Traced
import SqlTree.Proofs.Precedence.Fitted

set_option autoImplicit false

/-!
# Where the parts of expressions come from

## Main results

* `SqlTree.Grammar.expression_traced` — all nodes of an accepted expression are traced, if those of
  its parts are.
-/

namespace SqlTree.Grammar

open SqlTree.Parser SqlTree.Node

variable {site : Site} {limit depth : Nat}

section

variable {rules : Rules} (traced : rules.Traced site)

include traced

/-- An expression over traced rules is traced. -/
lemma expr_traced : Gives site rules.expr fun expr => (Node.expr expr).Traced site :=
  traced.operators 0

/-- A list of expressions is traced. -/
lemma exprs_traced :
    Gives site rules.exprs fun exprs => ∀ expr ∈ exprs, (Node.expr expr).Traced site :=
  .commaSeparated (expr_traced traced) _

end

variable (traced : (rules limit depth).Traced site)

include traced

/-! ## Sorting -/

/-- The expression of an ordering term is traced. -/
lemma orderingTerm_traced :
    Gives site (orderingTerm (rules limit depth))
      fun term => (Node.expr term.expr).Traced site := by
  unfold orderingTerm
  refine .bind (expr_traced traced) fun expr first => ?_
  refine .skip fun direction => .skip fun nulls => ?_
  exact .skip fun span => .of_pure first

/-- An ordering item is traced where no operator follows it, which would have belonged to it. -/
lemma orderingItem_traced :
    GivesBefore site Cursor.PastOperators (orderingItem (rules limit depth))
      fun item => (Node.orderingItem item).Traced site := by
  have term : GivesBefore site Cursor.PastOperators
      (do return .term (← orderingTerm (rules limit depth)))
      fun item : OrderingItem => AllTraced site (Node.orderingItem item).children :=
    .bind (orderingTerm_traced traced) fun term first =>
      .of_pure (by simpa [Node.children, ofOrderingItem] using first)
  refine .own orderingItem .orderingItem ?_
  unfold orderingItem
  refine .skip fun view => ?_
  split
  · refine .skip fun drift => .ite (.skip fun _ => .of_pure ?_) term
    simp [Node.children, ofOrderingItem]
  · exact term

/-- `ORDER BY` is traced where no operator follows it. Its items end before commas, which are no
operators. -/
lemma orderBy_traced :
    GivesBefore site Cursor.PastOperators (orderBy (rules limit depth))
      fun order => (Node.orderBy order).Traced site := by
  have items : GivesBefore site Cursor.PastOperators
      (commaSeparated (rules limit depth).limit (orderingItem (rules limit depth)))
      fun items => ∀ item ∈ items, (Node.orderingItem item).Traced site :=
    .commaSeparatedBefore (orderingItem_traced traced)
      (fun _ at_ => pastOperators_of_symbol at_ rfl) _
  refine .own orderBy .orderBy ?_
  unfold orderBy
  refine .skip fun start => .skip fun _ => ?_
  refine .bindBefore items ?_ fun items first => ?_
  · intro items middle order stop run ends
    obtain ⟨-, rfl⟩ := accepted_return run
    exact ends
  · exact .skip fun span => .of_pure (by simpa [Node.children] using first)

/-- `ORDER BY` that may be left out is traced where no operator follows it. -/
lemma optionalOrderBy_traced :
    GivesBefore site Cursor.PastOperators (optionalOrderBy (rules limit depth))
      fun order => ∀ part ∈ order, (Node.orderBy part).Traced site :=
  .whenever (orderBy_traced traced)

/-! ## Windows -/

/-- The offset of a bound of a frame is traced. -/
lemma frameBound_traced :
    Gives site (frameBound (rules limit depth))
      fun bound => ∀ offset ∈ bound.offset?, (Node.expr offset).Traced site := by
  unfold frameBound
  refine .skip fun view => .ite ?_ (.ite ?_ (.ite ?_ ?_))
  iterate 3 exact .skip fun _ => .skip fun _ => .of_pure (by simp [FrameBound.offset?])
  refine .bind (expr_traced traced) fun offset first => ?_
  refine .skip fun preceding => .ite ?_ ?_
  · exact .of_pure (by simpa [FrameBound.offset?] using first)
  · exact .skip fun following =>
      .ite (.of_pure (by simpa [FrameBound.offset?] using first)) (.of_unexpected _)

/-- The offsets of the two bounds after `BETWEEN` are traced. -/
lemma frameBetween_traced :
    Gives site (frameBetween (rules limit depth)) fun bounds =>
      (∀ offset ∈ bounds.1.offset?, (Node.expr offset).Traced site) ∧
        ∀ offset ∈ bounds.2.offset?, (Node.expr offset).Traced site := by
  unfold frameBetween
  refine .skip fun startSpan => ?_
  refine .bind (frameBound_traced traced) fun start first => ?_
  split
  · exact .skip fun span => .of_invalid _ _
  · refine .skip fun _ => .skip fun stopSpan => ?_
    refine .bind (frameBound_traced traced) fun stop second => ?_
    split
    · exact .skip fun span => .of_invalid _ _
    · exact .of_pure ⟨first, second⟩

/-- The offset of a single bound is traced. -/
lemma frameFrom_traced :
    Gives site (frameFrom (rules limit depth)) fun bounds =>
      (∀ offset ∈ bounds.1.offset?, (Node.expr offset).Traced site) ∧
        ∀ offset ∈ bounds.2.offset?, (Node.expr offset).Traced site := by
  unfold frameFrom
  refine .skip fun startSpan => ?_
  refine .bind (frameBound_traced traced) fun start first => ?_
  split
  · exact .skip fun span => .of_invalid _ _
  · exact .skip fun span => .of_invalid _ _
  · exact .of_pure ⟨first, by simp [FrameBound.offset?]⟩

/-- A frame is traced, if it is there. -/
lemma optionalFrame_traced :
    Gives site (optionalFrame (rules limit depth))
      fun frame => ∀ part ∈ frame, (Node.frame part).Traced site := by
  have whole (unit : FrameUnit) (start : Span) (bounds : FrameBound × FrameBound)
      (both : (∀ offset ∈ bounds.1.offset?, (Node.expr offset).Traced site) ∧
        ∀ offset ∈ bounds.2.offset?, (Node.expr offset).Traced site) :
      Gives site
        (do
          let exclude ← exclusion
          return some ⟨unit, bounds.1, bounds.2, exclude, ← spanFrom start⟩)
        fun frame : Option Frame => ∀ part ∈ frame, AllTraced site (Node.frame part).children := by
    refine .skip fun exclude => .skip fun span => ?_
    exact .of_pure (by simpa [Node.children] using both)
  refine .ownMaybe optionalFrame .frame ?_
  unfold optionalFrame
  refine .skip fun token => ?_
  split
  · refine .skip fun _ => .skip fun between => .ite ?_ ?_
    · exact .bind (frameBetween_traced traced) (whole _ _)
    · exact .bind (frameFrom_traced traced) (whole _ _)
  · exact .of_pure (by simp)

omit traced in
/-- A frame starts with no operator, and a window without one ends. -/
lemma pastOperators_of_frame {α : Type} {rules : Rules} {dialect : Dialect}
    {next : Option Frame → Span → Parser α} {cursor stop : Cursor} {value : α}
    (run : (do
      let frame ← optionalFrame rules
      let place ← expectSymbol .rightParen
      next frame place).run dialect cursor = .accepted value stop) : cursor.PastOperators := by
  obtain ⟨frame, middle, run₁, -, run⟩ := accepted_bind run
  unfold optionalFrame at run₁
  rw [run_current_bind] at run₁
  unfold Cursor.PastOperators
  cases unit : frameUnit? cursor.current.kind with
  | some unit' =>
    unfold frameUnit? at unit
    split at unit
    · next kind => rw [kind]; rfl
    · next kind => rw [kind]; rfl
    · next kind => rw [kind]; rfl
    · exact absurd unit (by simp)
  | none =>
    rw [unit] at run₁
    obtain ⟨-, rfl⟩ := accepted_pure run₁
    exact pastOperators_of_symbol (accepted_expectSymbol run).1 rfl

/-- A window in parentheses is traced. Its ordering ends before the frame or the parenthesis, which
are no operators. -/
lemma windowDefinition_traced :
    Gives site (windowDefinition (rules limit depth))
      fun window => (Node.window window).Traced site := by
  have partitions : Gives site
      (afterKeyword .PARTITION do let _ ← expectKeyword .BY; (rules limit depth).exprs)
      fun partition => ∀ exprs ∈ partition, ∀ expr ∈ exprs, (Node.expr expr).Traced site :=
    .afterKeyword (.skip fun _ => exprs_traced traced)
  refine .own windowDefinition .window ?_
  unfold windowDefinition
  refine .skip fun start => .skip fun base => ?_
  refine .bind partitions fun partition first => ?_
  refine .bindBefore (optionalOrderBy_traced traced) ?_ fun order second => ?_
  · exact fun _ _ _ _ run _ => pastOperators_of_frame run
  · refine .bind (optionalFrame_traced traced) fun frame third => ?_
    refine .skip fun _ => .skip fun span => .of_pure ?_
    cases partition <;> simp_all [Node.children]

/-! ## Function calls -/

/-- The arguments of a call and their ordering are traced. -/
lemma callParameters_traced :
    GivesBefore site Cursor.PastOperators (callParameters (rules limit depth)) fun parts =>
      (∀ expr ∈ parts.1.arguments, (Node.expr expr).Traced site) ∧
        ∀ order ∈ parts.2, (Node.orderBy order).Traced site := by
  unfold callParameters
  refine .skip fun closed => .ite ?_ (.skip fun star => .ite ?_ (.skip fun distinct => ?_))
  iterate 2 exact .of_pure (by simp [Parameters.arguments])
  refine .bind (exprs_traced traced) fun arguments first => ?_
  exact .last (optionalOrderBy_traced traced) fun order second => ⟨first, second⟩

/-- The condition of `FILTER` is traced. -/
lemma optionalFilter_traced :
    Gives site (optionalFilter (rules limit depth))
      fun filter => ∀ expr ∈ filter, (Node.expr expr).Traced site := by
  unfold optionalFilter
  refine .whenever (.skip fun here => .skip fun _ => .skip fun _ => ?_)
  exact .parenthesized (.skip fun _ => expr_traced traced) fun _ _ => trivial

/-- The window of a call is traced. -/
lemma functionWindow_traced :
    Gives site (functionWindow (rules limit depth))
      fun window => AllTraced site (ofOver window) := by
  unfold functionWindow
  refine .skip fun inline => .ite ?_ ?_
  · exact .bind (windowDefinition_traced traced) fun window first =>
      .of_pure (by simpa [ofOver] using first)
  · refine .skip fun start => .skip fun name => .skip fun span => ?_
    exact .of_pure (by simp [ofOver])

/-- The children of a call are traced. -/
lemma functionCall_traced :
    Gives site (functionCall (rules limit depth))
      fun expr => AllTraced site (Node.expr expr).children := by
  unfold functionCall
  refine .skip fun token => .bind (.parenthesized (callParameters_traced traced)
    fun _ at_ => pastOperators_of_symbol at_ rfl) ?_
  rintro ⟨parameters, order⟩ ⟨first, second⟩
  refine .bind (optionalFilter_traced traced) fun filter third => ?_
  refine .skip fun isOver => .ite ?_ (.ite ?_ ?_)
  · refine .skip fun here => .skip fun _ => ?_
    split
    · exact .of_invalid _ _
    · refine .skip fun _ => ?_
      refine .bind (functionWindow_traced traced) fun window fourth => ?_
      exact .skip fun span => .of_pure (by simp_all [Node.children, ofExpr])
  · exact .skip fun span => .of_pure (by simp_all [Node.children, ofExpr])
  · exact .skip fun span => .of_pure (by simpa [Node.children, ofExpr] using first)

/-! ## Operands -/

/-- The children of whatever stands in parentheses are traced. A subquery ends before the
parenthesis. -/
lemma parenthesizedExpr_traced :
    Gives site (parenthesizedExpr (rules limit depth))
      fun expr => AllTraced site (Node.expr expr).children := by
  unfold parenthesizedExpr
  refine .skip fun start => .skip fun isQuery => .ite ?_ ?_
  · refine .closed traced.query (fun _ => done_of_rightParen) fun query first => ?_
    refine .skip fun span => ?_
    exact .of_pure (by simpa [Node.children, ofExpr] using first)
  · refine .bind (expr_traced traced) fun expr first => ?_
    refine .skip fun more => .ite ?_ ?_
    · refine .bind (exprs_traced traced) fun rest others => ?_
      refine .skip fun _ => .skip fun span => ?_
      exact .of_pure (by simpa [Node.children, ofExpr] using ⟨first, others⟩)
    · refine .skip fun _ => .skip fun span => ?_
      exact .of_pure (by simpa [Node.children, ofExpr] using first)

/-- A branch of `CASE` is traced. -/
lemma whenClause_traced :
    Gives site (whenClause (rules limit depth))
      fun branch => (Node.whenClause branch).Traced site := by
  refine .own whenClause .whenClause ?_
  unfold whenClause
  refine .skip fun start => ?_
  refine .bind (expr_traced traced) fun condition first => ?_
  refine .skip fun _ => ?_
  refine .bind (expr_traced traced) fun result second => ?_
  refine .skip fun span => .of_pure ?_
  simpa [Node.children] using ⟨first, second⟩

/-- The children of `CASE` are traced. -/
lemma caseExpr_traced :
    Gives site (caseExpr (rules limit depth))
      fun expr => AllTraced site (Node.expr expr).children := by
  unfold caseExpr
  refine .skip fun start => ?_
  refine .bind (.whenever (expr_traced traced)) fun operand first => ?_
  refine .bind (.many (.whenever (whenClause_traced traced)) _) fun branches second => ?_
  refine .ite (.of_unexpected _) (.bind (.afterKeyword (expr_traced traced)) ?_)
  intro otherwise third
  refine .skip fun _ => .skip fun span => ?_
  exact .of_pure (by simpa [Node.children, ofExpr] using ⟨first, second, third⟩)

/-- The children of `CAST` are traced, its type among them. -/
lemma castExpr_traced :
    Gives site (castExpr (rules limit depth))
      fun expr => AllTraced site (Node.expr expr).children := by
  have type : Gives site (typeName (rules limit depth).limit)
      fun type => (Node.typeName type).Traced site :=
    .own (typeName ·.limit) .typeName fun _ _ _ _ _ _ => by simp [Node.children]
  unfold castExpr
  refine .skip fun start => .skip fun _ => ?_
  refine .bind (expr_traced traced) fun operand first => ?_
  refine .skip fun _ => ?_
  refine .bind type fun type second => ?_
  refine .skip fun _ => .skip fun span => .of_pure ?_
  simpa [Node.children, ofExpr] using ⟨first, second⟩

/-- The query of `EXISTS` is traced. -/
lemma existsExpr_traced :
    Gives site (existsExpr (rules limit depth))
      fun expr => AllTraced site (Node.expr expr).children := by
  unfold existsExpr
  refine .skip fun start => .skip fun negated => .skip fun _ => ?_
  refine .bind (.parenthesized traced.query fun _ => done_of_rightParen) fun query first => ?_
  exact .skip fun span => .of_pure (by simpa [Node.children, ofExpr] using first)

/-- The message of `RAISE` is traced. -/
lemma raiseExpr_traced :
    Gives site (raiseExpr (rules limit depth))
      fun expr => AllTraced site (Node.expr expr).children := by
  have message (action : RaiseAction) : Gives site
      (whenever (fun _ => action ≠ .ignore) do
        let _ ← expectSymbol .comma
        (rules limit depth).expr)
      fun message => ∀ expr ∈ message, (Node.expr expr).Traced site :=
    .whenever (.skip fun _ => expr_traced traced)
  unfold raiseExpr
  refine .skip fun start => .skip fun _ => .skip fun token => ?_
  split
  · refine .skip fun _ => ?_
    refine .bind (message _) fun text first => ?_
    refine .skip fun _ => .skip fun span => ?_
    exact .of_pure (by simpa [Node.children, ofExpr] using first)
  · exact .of_unexpected _

omit traced in
/-- A reference to a column has no children. -/
lemma reference_traced :
    Gives site reference fun expr => AllTraced site (Node.expr expr).children := by
  unfold reference
  refine .skip fun start => .skip fun first => .skip fun more => .ite ?_ ?_
  · refine .skip fun second => .skip fun more => .ite ?_ ?_
    · refine .skip fun third => .skip fun span => ?_
      exact .of_pure (by simp [Node.children, ofExpr])
    · exact .skip fun span => .of_pure (by simp [Node.children, ofExpr])
  · exact .skip fun span => .of_pure (by simp [Node.children, ofExpr])

omit traced in
/-- A variable has no children. -/
lemma variableExpr_traced :
    Gives site variableExpr fun expr => AllTraced site (Node.expr expr).children := by
  unfold variableExpr
  refine .skip fun view => ?_
  split
  · split
    · refine .skip fun drift => .ite ?_ ?_ <;>
        exact .skip fun _ => .of_pure (by simp [Node.children, ofExpr])
    · exact .skip fun _ => .of_pure (by simp [Node.children, ofExpr])
  · exact .of_unexpected _

/-- The children of an operand without prefix are traced. -/
lemma primary_traced :
    Gives site (primary (rules limit depth))
      fun expr => AllTraced site (Node.expr expr).children := by
  unfold primary
  refine .skip fun view => ?_
  split
  · exact .skip fun token => .of_pure (by simp [Node.children, ofExpr])
  · split
    · exact parenthesizedExpr_traced traced
    · exact caseExpr_traced traced
    · exact castExpr_traced traced
    · exact existsExpr_traced traced
    · exact .ite (raiseExpr_traced traced) (.ite (functionCall_traced traced)
        (.ite reference_traced variableExpr_traced))

/-- The children of an operand are traced. -/
lemma operand_traced :
    Gives site (operand (rules limit depth))
      fun expr => AllTraced site (Node.expr expr).children := by
  unfold operand
  refine .skip fun view => .ite (existsExpr_traced traced) ?_
  split
  · refine .skip fun token => ?_
    refine .bind (traced.operators _) fun inner first => ?_
    refine .skip fun span => ?_
    exact .of_pure (by simpa [Node.children, ofExpr] using first)
  · exact primary_traced traced

/-! ## Operators after an operand -/

omit traced in
/-- A variable is an operand of its own. -/
lemma variableExpr_read : Gives site variableExpr fun expr => (Node.expr expr).Traced site := by
  intro cursor expr stop here run _
  obtain ⟨which, kind⟩ := accepted_variableExpr run
  have call : ¬ atCall cursor.view = true := fun call => by
    have := (atCall_iff.mp call).2
    rw [show cursor.view.current.kind = .variable which from kind] at this
    exact Bool.false_ne_true this
  have name : ¬ cursor.view.atIdentifier = true := by
    unfold View.atIdentifier
    rw [show cursor.view.current.kind = .variable which from kind]
    exact Bool.false_ne_true
  have raise : cursor.view.atKeyword .RAISE = false := by
    have kind : cursor.view.current.kind = .variable which := kind
    rw [View.atKeyword, Token.isKeyword_eq, kind]
    rfl
  have run' : (operand (rules 0 0)).run site.dialect cursor = .accepted expr stop := by
    rw [run_operand_primary (by rw [kind]; rfl), run_primary_of kind, operandOf_plain rfl, raise,
      Bool.false_and, if_neg Bool.false_ne_true, if_neg call, if_neg name, run]
  have chain : Chained site (rules 0 0) 0 cursor expr stop := .operand here run'
  exact Node.traced_iff.mpr ⟨.expr chain, variableExpr_traced here run trivial⟩

/-- What follows `IN` is traced. -/
lemma inSource_traced :
    Gives site (inSource (rules limit depth)) fun source => AllTraced site (ofInSource source) := by
  have rows : GivesBefore site Rereading.Done
      (do
        if ← sees (·.atSymbol .rightParen) then
          return .list []
        else if ← sees (·.atQuery) then
          return .subquery (← (rules limit depth).query)
        else
          return .list (← (rules limit depth).exprs))
      fun source => AllTraced site (ofInSource source) := by
    refine .skip fun closed =>
      .ite (.of_pure (by simp [ofInSource])) (.skip fun isQuery => .ite ?_ ?_)
    · exact .last traced.query fun query first => by simpa [ofInSource] using first
    · exact .bind (exprs_traced traced) fun items first =>
        .of_pure (by simpa [ofInSource] using first)
  unfold inSource
  refine .skip fun view => .ite (.parenthesized rows fun _ => done_of_rightParen) ?_
  split
  · exact .bind variableExpr_read fun which first => .of_pure (by simpa [ofInSource] using first)
  · refine .ite ?_ (.of_unexpected _)
    refine .skip fun name => .skip fun span => ?_
    exact .of_pure (by simp [ofInSource])

section

variable {left : Expr} (before : (Node.expr left).Traced site)

include before

/-- The children of what an operator makes that `NOT` may precede are traced. -/
lemma negatable_traced (negated : Bool) :
    Gives site (negatable (rules limit depth) left negated)
      fun expr => AllTraced site (Node.expr expr).children := by
  unfold negatable
  refine .skip fun token => ?_
  dsimp only
  split
  · refine .skip fun _ => ?_
    refine .bind (traced.operators _) fun low first => ?_
    refine .skip fun _ => ?_
    refine .bind (traced.operators _) fun high second => ?_
    refine .skip fun span => .of_pure ?_
    simpa [Node.children, ofExpr] using ⟨before, first, second⟩
  · refine .skip fun _ => ?_
    refine .bind (inSource_traced traced) fun source first => ?_
    refine .skip fun span => ?_
    exact .of_pure (by simpa [Node.children, ofExpr] using ⟨before, first⟩)
  · split
    · refine .skip fun _ => ?_
      refine .bind (traced.operators _) fun pattern first => ?_
      refine .bind (.afterKeyword (traced.operators _)) fun escape second => ?_
      exact .skip fun span => .of_pure
        (by simpa [Node.children, ofExpr] using ⟨before, first, second⟩)
    · exact .of_unexpected _

/-- The children of what `IS` makes are traced. -/
lemma isExpr_traced :
    Gives site (isExpr (rules limit depth) left)
      fun expr => AllTraced site (Node.expr expr).children := by
  unfold isExpr
  refine .skip fun negated => .skip fun null => .ite ?_ (.skip fun distinct => ?_)
  · exact .skip fun span => .of_pure (by simpa [Node.children, ofExpr] using before)
  · exact .bind (traced.operators _) fun right first =>
      .of_pure (by simpa [Node.children, ofExpr] using ⟨before, first⟩)

/-- The children of what an operator makes of the operand before it are traced, if that operand is:
it is the first of them. -/
lemma operatorAfter_traced (power : Nat) :
    Gives site (operatorAfter (rules limit depth) left power)
      fun expr => AllTraced site (Node.expr expr).children := by
  unfold operatorAfter
  refine .skip fun token => ?_
  split
  · refine .skip fun _ => .skip fun collation => .skip fun span => .of_pure ?_
    simpa [Node.children, ofExpr] using before
  iterate 2
    · refine .skip fun _ => .skip fun span => .of_pure ?_
      simpa [Node.children, ofExpr] using before
  · exact .skip fun _ => isExpr_traced traced before
  · refine .skip fun _ => .skip fun null => .ite ?_ (negatable_traced traced before _)
    exact .skip fun span => .of_pure (by simpa [Node.children, ofExpr] using before)
  iterate 6 · exact negatable_traced traced before _
  · unfold binaryExpr
    refine .skip fun token => ?_
    split
    · have right (op : BinaryOp) : Gives site (binaryAfter (rules limit depth) left power op)
          fun expr => AllTraced site (Node.expr expr).children :=
        .bind (traced.operators _) fun right first =>
          .of_pure (by simpa [Node.children, ofExpr] using ⟨before, first⟩)
      refine .ite ?_ ?_
      · refine .skip fun _ => .skip fun _ => ?_
        exact right _
      · refine .skip fun _ => ?_
        exact right _
    · exact .of_unexpected _

/-- The children of what a turn of the operator loop yields are traced. -/
lemma nextOperator_traced (least : Nat) :
    Gives site (nextOperator (rules limit depth) least left)
      fun next => ∀ expr ∈ next, AllTraced site (Node.expr expr).children := by
  unfold nextOperator
  refine .skip fun view => ?_
  split
  · refine .ite (.of_pure (by simp)) ?_
    exact .bind (operatorAfter_traced traced before _) fun expr first =>
      .of_pure (by simpa using first)
  · exact .of_pure (by simp)

end

/-- An operand is traced with the operators after it, as the operators are. -/
lemma loops_traced {least : Nat} {cursor middle stop : Cursor} {left expr : Expr}
    (chain : Chained site (rules limit depth) least cursor left middle)
    (before : (Node.expr left).Traced site)
    (loops : Loops site.dialect (nextOperator (rules limit depth) least) left middle expr stop) :
    (Node.expr expr).Traced site := by
  induction loops with
  | refl => exact before
  | step first _ ih =>
    have chain' := chain.operator first
    exact ih chain' (Node.traced_iff.mpr ⟨.expr chain',
      nextOperator_traced traced before least chain.holds first trivial _ rfl⟩)

/-- **All nodes of an accepted expression are traced**, if those of its parts are. -/
lemma expression_traced (least : Nat) :
    Gives site ((rules limit (depth + 1)).operators least)
      fun expr => (Node.expr expr).Traced site := by
  intro cursor expr stop here run _
  obtain ⟨first, middle, run₁, -, run₂⟩ := accepted_bind run
  obtain ⟨place, loops, ends⟩ := accepted_iterate run₂
  have chain : Chained site (rules limit depth) least cursor first middle := .operand here run₁
  exact loops_traced traced chain
    (Node.traced_iff.mpr ⟨.expr chain, operand_traced traced here run₁ trivial⟩) loops

end SqlTree.Grammar
