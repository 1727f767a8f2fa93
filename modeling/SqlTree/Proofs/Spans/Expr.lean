import SqlTree.Grammar.Expr
import SqlTree.Proofs.Spans.Leads

set_option autoImplicit false

/-!
# Where expressions are placed

The parsers of expressions and of their parts read nodes that are placed between the ends of their
runs. An operator is placed from the start of its left operand.

## Main results

* `SqlTree.Grammar.orderBy_places`, `SqlTree.Grammar.windowDefinition_places`,
  `SqlTree.Grammar.functionCall_places` — sorting clauses, windows and calls.
* `SqlTree.Grammar.expression_places` — expressions with operators.
-/

namespace SqlTree.Grammar

open SqlTree.Parser

variable {tape : Tape} {rules : Rules}

/-! ## Types, variables and references -/

/-- The name of a type is placed: its span is that of its words and of the arguments after them. -/
lemma typeName_places (fuel : Nat) : (typeName fuel).Places tape .typeName := by
  intro i
  refine .here fun _ starts => ?_
  have words : (many fuel (whenever atTypeWord do return (← advance).lexeme)).Leads tape i
      fun words j => words = [] ∨ i < j :=
    .many_of_takes fuel fun _ => .ifSees
      (.bind (.advance fun _ => .of_pure (Nat.lt_succ_self _)) fun _ _ _ lt => .of_pure (.inr lt))
      (.of_pure (.inl rfl))
  refine words.bind fun words j _ taken => ?_
  split
  · trivial
  · next some =>
    have lt : i < j := taken.resolve_left (by simpa using some)
    exact .skip fun _ _ _ => .node starts (by omega) rfl (.nil (by omega))

/-- A variable is placed at its token. -/
lemma variableExpr_places : variableExpr.Places tape .expr := by
  intro i
  refine .view ?_
  split
  · split
    · exact .isDrift fun drift => .ite (.token rfl rfl) (.token rfl rfl)
    · exact .token rfl rfl
  · trivial

/-- A reference to a column is placed from its first name to its last one. -/
lemma reference_places : reference.Places tape .expr := by
  unfold reference
  intro i
  refine .here fun start starts => ?_
  refine .identifier fun first => ?_
  refine .ifSymbol ?_ (.node starts (by omega) rfl (.nil (by omega)))
  refine .identifier fun second => ?_
  refine .ifSymbol ?_ (.node starts (by omega) rfl (.nil (by omega)))
  refine .identifier fun third => ?_
  exact .node starts (by omega) rfl (.nil (by omega))

/-! ## Sorting -/

section

variable (laid : rules.Laid tape)

include laid

/-- An ordering term is placed, and so is its expression. -/
lemma orderingTerm_places :
    (orderingTerm rules).Places tape fun term => .orderingItem (.term term) := by
  unfold orderingTerm
  intro i
  refine (laid.expr i).bind fun expr _ _ placed => ?_
  refine .skip fun direction _ _ => .skip fun nulls _ _ => ?_
  have lt := placed.lt
  exact .node placed.starts (by omega) rfl (placed.row.mono (Nat.le_refl _) (by omega))

/-- An ordering item is placed. -/
lemma orderingItem_places : (orderingItem rules).Places tape .orderingItem := by
  intro i
  have term : (do return .term (← orderingTerm rules) : Parser OrderingItem).Leads tape i
      fun item j => tape.Places i j (.orderingItem item) :=
    (orderingTerm_places laid i).bind fun _ _ _ placed => .of_pure placed
  refine .view ?_
  split
  · exact .isDrift fun _ => .ite (.token rfl rfl) term
  · exact term

/-- `ORDER BY` is placed, and its items in order. -/
lemma orderBy_places : (orderBy rules).Places tape .orderBy := by
  unfold orderBy
  intro i
  refine .expectKeyword fun start starts => ?_
  refine .expectKeyword fun _ _ => ?_
  refine ((orderingItem_places laid).commaSeparated _ _).bind fun _ _ _ items => ?_
  exact .node starts (by omega) rfl (items.mono (by omega) (Nat.le_refl _))

/-- `ORDER BY` that may be left out lays out its node, if it is there. -/
lemma optionalOrderBy_lays : (optionalOrderBy rules).Lays tape (Node.maybe .orderBy) :=
  (orderBy_places laid).whenever

/-! ## Windows -/

/-- A bound of a frame lays out its offset. -/
lemma frameBound_lays :
    (frameBound rules).Lays tape fun bound => Node.maybe .expr bound.offset? := by
  intro i
  have words (bound : FrameBound) (leaf : bound.offset? = none) : (do
      let _ ← advance
      let _ ← advance
      return bound).Leads tape i fun bound j =>
        Row tape.Places i j (Node.maybe .expr bound.offset?) :=
    .skip fun _ _ _ => .skip fun _ _ _ => .of_pure (by
      rw [leaf]
      exact .nil (by omega))
  refine .view (.ite (words _ rfl) (.ite (words _ rfl) (.ite (words _ rfl) ?_)))
  refine (laid.expr i).bind fun offset _ _ placed => ?_
  refine .ifKeyword (.of_pure (placed.row.mono (Nat.le_refl _) (Nat.le_succ _))) ?_
  exact .ifKeyword (.of_pure (placed.row.mono (Nat.le_refl _) (Nat.le_succ _))) trivial

/-- The nodes of the ends of a frame. -/
def boundNodes (bounds : FrameBound × FrameBound) : List Node :=
  Node.maybe .expr bounds.1.offset? ++ Node.maybe .expr bounds.2.offset?

/-- The two bounds after `BETWEEN` lay out their offsets, in order. -/
lemma frameBetween_lays : (frameBetween rules).Lays tape boundNodes := by
  intro i
  refine .here fun startSpan _ => ?_
  refine (frameBound_lays laid i).bind fun start _ _ first => ?_
  split
  · exact .skip fun _ _ _ => trivial
  · refine .expectKeyword fun _ _ => ?_
    refine .here fun stopSpan _ => ?_
    refine (frameBound_lays laid _).bind fun stop _ _ second => ?_
    split
    · exact .skip fun _ _ _ => trivial
    · exact .of_pure (first.append (second.mono (by omega) (Nat.le_refl _)))

/-- A single bound lays out its offset. -/
lemma frameFrom_lays : (frameFrom rules).Lays tape boundNodes := by
  intro i
  refine .here fun startSpan _ => ?_
  refine (frameBound_lays laid i).bind fun start _ _ first => ?_
  split
  · exact .skip fun _ _ _ => trivial
  · exact .skip fun _ _ _ => trivial
  · exact .of_pure (first.append (.nil (Nat.le_refl _)))

/-- A frame lays out its node, if it is there. -/
lemma optionalFrame_lays : (optionalFrame rules).Lays tape (Node.maybe .frame) := by
  intro i
  refine .current ?_
  split
  · refine .advance fun _ => .ifKeyword ?_ ?_
    · refine (frameBetween_lays laid _).bind fun _ _ _ row => .skip fun exclude _ _ => ?_
      exact .returns .token (by omega)
        (Tape.Places.row (.of_row (by omega) rfl (row.mono (by omega) (by omega))))
    · refine (frameFrom_lays laid _).bind fun _ _ _ row => .skip fun exclude _ _ => ?_
      exact .returns .token (by omega)
        (Tape.Places.row (.of_row (by omega) rfl (row.mono (by omega) (by omega))))
  · exact .of_pure (.nil (Nat.le_refl _))

/-- A window in parentheses is placed, and its parts in order. -/
lemma windowDefinition_places : (windowDefinition rules).Places tape .window := by
  unfold windowDefinition
  intro i
  refine .expectSymbol fun start starts => ?_
  refine .skip fun base _ _ => ?_
  refine (laid.exprs.afterExpected.afterKeywordList _).bind fun _ _ _ partition => ?_
  refine (optionalOrderBy_lays laid _).bind fun _ _ _ order => ?_
  refine (optionalFrame_lays laid _).bind fun _ _ _ frame => ?_
  refine .expectSymbol fun _ _ => ?_
  exact .node starts (by omega) rfl
    (((partition.append order).append frame).mono (by omega) (by omega))

/-! ## Function calls -/

/-- The nodes of what a function is called with. -/
def callNodes (call : Parameters × Option OrderBy) : List Node :=
  Node.each .expr call.1.arguments ++ Node.maybe .orderBy call.2

/-- The parameters of a call lay out the arguments and then their ordering. -/
lemma callParameters_lays : (callParameters rules).Lays tape callNodes := by
  unfold callParameters
  intro i
  refine .ifSees (.of_pure (.nil (by omega))) ?_
  refine .ifSymbol (.of_pure (.nil (by omega))) ?_
  refine .skip fun distinct _ _ => ?_
  refine (laid.exprs _).bind fun _ _ _ arguments => ?_
  refine (optionalOrderBy_lays laid _).bind fun _ _ _ order => ?_
  exact .of_pure ((arguments.append order).mono (by omega) (Nat.le_refl _))

/-- `FILTER` lays out its condition. -/
lemma optionalFilter_lays : (optionalFilter rules).Lays tape (Node.maybe .expr) := by
  unfold optionalFilter
  refine .wheneverNode fun i => ?_
  refine .here fun start _ => .require ?_
  refine .advance fun _ => ?_
  refine (laid.expr.lays.afterExpected.parenthesized _).mono fun _ _ _ row => ?_
  exact row.mono (Nat.le_succ _) (Nat.le_refl _)

/-- The window of a call lays out its definition, if it has one. -/
lemma functionWindow_lays : (functionWindow rules).Lays tape Node.ofOver := by
  unfold functionWindow
  intro i
  refine .ifSees ?_ ?_
  · exact (windowDefinition_places laid i).bind fun _ _ _ placed => .of_pure placed.row
  · refine .here fun start starts => ?_
    refine .identifier fun name => ?_
    exact .returns starts (by omega) (.nil (by omega))

/-- A call is placed: after its arguments and their ordering come its filter and its window. -/
lemma functionCall_places : (functionCall rules).Places tape .expr := by
  intro i
  refine .advance fun token => ?_
  refine ((callParameters_lays laid).parenthesized _).bind fun ⟨parameters, order⟩ _ _ call => ?_
  refine (optionalFilter_lays laid _).bind fun _ _ _ filter => ?_
  refine .ifSees (.here fun _ _ => .require ?_) (.ite ?_ ?_)
  · cases order with
    | some order => trivial
    | none =>
      refine .advance fun _ => ?_
      refine (functionWindow_lays laid _).bind fun _ _ _ window => ?_
      exact .node .token (by omega) rfl (((call.left.append filter).append
          (window.mono (by omega) (Nat.le_refl _))).mono (by omega) (by omega))
  · exact .node .token (by omega) rfl ((call.append filter).mono (by omega) (by omega))
  · exact .node .token (by omega) rfl (call.left.mono (by omega) (by omega))

/-! ## Operands -/

/-- Whatever stands in parentheses is placed with them. -/
lemma parenthesizedExpr_places : (parenthesizedExpr rules).Places tape .expr := by
  intro i
  refine .expectSymbol fun _ starts => .ifSees ?_ ?_
  · refine (laid.query _).bind fun query _ _ placed => ?_
    refine .expectSymbol fun _ _ => ?_
    exact .node starts (by omega) rfl (placed.row.mono (by omega) (by omega))
  · refine (laid.expr _).bind fun _ _ _ first => .ifSymbol ?_ ?_
    · refine (laid.exprs _).bind fun _ _ _ rest => ?_
      refine .expectSymbol fun _ _ => ?_
      exact .node starts (by omega) rfl
        ((first.row.append (rest.mono (by omega) (Nat.le_refl _))).mono (by omega) (by omega))
    · exact .expectSymbol fun _ _ =>
        .node starts (by omega) rfl (first.row.mono (by omega) (by omega))

/-- A branch of `CASE` is placed, and its condition before its result. -/
lemma whenClause_places : (whenClause rules).Places tape .whenClause := by
  unfold whenClause
  intro i
  refine .expectKeyword fun start starts => ?_
  refine (laid.expr _).bind fun _ _ _ condition => ?_
  refine .expectKeyword fun _ _ => ?_
  refine (laid.expr _).bind fun _ _ _ result => ?_
  exact .node starts (by omega) rfl
    ((condition.row.append (result.row.mono (by omega) (Nat.le_refl _))).mono (by omega)
    (Nat.le_refl _))

/-- `CASE` is placed, and its operand, its branches and the last result in order. -/
lemma caseExpr_places : (caseExpr rules).Places tape .expr := by
  unfold caseExpr
  intro i
  refine .expectKeyword fun start starts => ?_
  refine (laid.expr.whenever _).bind fun _ _ _ operand => ?_
  refine (Places.many _ (whenClause_places laid).whenever _).bind fun _ _ _ branches => ?_
  refine .ite trivial ?_
  refine (laid.expr.afterKeyword _).bind fun _ _ _ otherwise => ?_
  refine .expectKeyword fun _ _ => ?_
  exact .node starts (by omega) rfl
    (((operand.append branches).append otherwise).mono (by omega) (by omega))

/-- `CAST` is placed, and its expression before its type. -/
lemma castExpr_places : (castExpr rules).Places tape .expr := by
  unfold castExpr
  intro i
  refine .expectKeyword fun start starts => ?_
  refine .expectSymbol fun _ _ => ?_
  refine (laid.expr _).bind fun _ _ _ operand => ?_
  refine .expectKeyword fun _ _ => ?_
  refine (typeName_places _ _).bind fun _ _ _ type => ?_
  refine .expectSymbol fun _ _ => ?_
  exact .node starts (by omega) rfl
    ((operand.row.append (type.row.mono (by omega) (Nat.le_refl _))).mono (by omega) (by omega))

/-- `EXISTS` is placed, from `NOT` on if it is negated. -/
lemma existsExpr_places : (existsExpr rules).Places tape .expr := by
  unfold existsExpr
  intro i
  refine .here fun start starts => ?_
  refine .skip fun negated _ _ => ?_
  refine .expectKeyword fun _ _ => ?_
  refine (laid.query.parenthesized _).bind fun _ _ _ query => ?_
  exact .node starts (by omega) rfl (query.mono (by omega) (Nat.le_refl _))

/-- `RAISE` is placed. -/
lemma raiseExpr_places : (raiseExpr rules).Places tape .expr := by
  intro i
  refine .expectKeyword fun start starts => ?_
  refine .expectSymbol fun _ _ => ?_
  refine .current ?_
  split
  · refine .advance fun _ => .bind (Lays.wheneverNode ?_ _) fun _ _ _ message =>
      .expectSymbol fun _ _ => .node starts (by omega) rfl (message.mono (by omega) (by omega))
    exact fun _ => .expectSymbol fun _ _ => (laid.expr _).mono fun _ _ _ placed =>
      placed.row.mono (Nat.le_succ _) (Nat.le_refl _)
  · trivial

/-- An operand without prefix is placed, whichever kind it is. -/
lemma primary_places : (primary rules).Places tape .expr := by
  intro i
  refine .view ?_
  split
  · exact .token rfl rfl
  · split
    · exact parenthesizedExpr_places laid i
    · exact caseExpr_places laid i
    · exact castExpr_places laid i
    · exact existsExpr_places laid i
    · refine .ite (raiseExpr_places laid i) ?_
      refine .ite (functionCall_places laid i) ?_
      exact .ite (reference_places i) (variableExpr_places i)

/-- An operand is placed, from its prefix operator on. -/
lemma operand_places : (operand rules).Places tape .expr := by
  intro i
  refine .view (.ite (existsExpr_places laid i) ?_)
  split
  · refine .advance fun token => ?_
    refine (laid.operators _ _).bind fun _ _ _ operand => ?_
    exact .node .token (by omega) rfl (operand.row.mono (by omega) (Nat.le_refl _))
  · exact primary_places laid i

/-! ## Operators after an operand -/

/-- What follows `IN` lays out its expressions, its query or its variable. -/
lemma inSource_lays : (inSource rules).Lays tape Node.ofInSource := by
  intro i
  refine .view (.ite ?_ ?_)
  · have inner : Lays tape (do
        if ← sees (·.atSymbol .rightParen) then
          return .list []
        else if ← sees (·.atQuery) then
          return .subquery (← rules.query)
        else
          return .list (← rules.exprs)) Node.ofInSource := by
      intro i
      refine .ifSees (.of_pure (.nil (Nat.le_refl _))) ?_
      refine .ifSees ?_ ?_
      · exact (laid.query i).bind fun _ _ _ query => .of_pure query.row
      · exact (laid.exprs i).bind fun _ _ _ items => .of_pure items
    exact inner.parenthesized i
  · split
    · exact (variableExpr_places i).bind fun _ _ _ which => .of_pure which.row
    · refine .ite ?_ trivial
      refine .skip fun names _ _ => .skip fun span _ _ => ?_
      exact .of_pure (.nil (by omega))

variable {left : Expr} {i j : Nat}

omit laid in
/-- An operator between two operands. -/
lemma binary_placed {k l : Nat} {right : Expr} (op : BinaryOp)
    (first : tape.Places i j (.expr left)) (le : j ≤ k) (second : tape.Places k l (.expr right)) :
    tape.Places i l (.expr (.binary left op right (left.span.merge right.span))) := by
  have lt := first.lt
  have lt' := second.lt
  refine .of_row (by omega) ?_ (first.row.append (second.row.mono le (Nat.le_refl _)))
  change (Node.expr left).span.merge (Node.expr right).span = _
  rw [first.span, second.span, Tape.merge_extent (by omega) (by omega)]

variable {here : Nat} (placed : tape.Places i j (.expr left)) (le : j ≤ here)

include placed le

/-- An operator that `NOT` may precede places what it makes of the operand before it, from that
operand on. -/
lemma negatable_leads (negated : Bool) : (negatable rules left negated).Leads tape here
    fun value k => tape.Places i k (.expr value) := by
  have lt := placed.lt
  have first : Row tape.Places i here [.expr left] := placed.row.mono (Nat.le_refl _) le
  refine .current ?_
  dsimp only
  split
  · refine .advance fun _ => ?_
    refine (laid.operators _ _).bind fun _ _ _ low => ?_
    refine .expectKeyword fun _ _ => ?_
    refine (laid.operators _ _).bind fun _ _ _ high => ?_
    exact .node placed.starts (by omega) rfl
      (first.append ((low.row.append (high.row.mono (by omega) (Nat.le_refl _))).mono (by omega)
        (Nat.le_refl _)))
  · refine .advance fun _ => ?_
    refine (inSource_lays laid _).bind fun _ _ _ source => ?_
    exact .node placed.starts (by omega) rfl
      (first.append (source.mono (by omega) (Nat.le_refl _)))
  · split
    · refine .advance fun _ => ?_
      refine (laid.operators _ _).bind fun _ _ _ pattern => ?_
      refine ((laid.operators _).afterKeyword _).bind fun _ _ _ escape => ?_
      exact .node placed.starts (by omega) rfl
        (first.append ((pattern.row.append escape).mono (by omega) (Nat.le_refl _)))
    · trivial

omit laid in
/-- An operator of keywords alone. -/
lemma suffix_leads {make : Span → Expr}
    (span : (make (tape.extent i here)).span = tape.extent i here)
    (children : Node.ofExpr (make (tape.extent i here)) = [.expr left]) :
    (do return make (← spanFrom left.span) : Parser Expr).Leads tape here
      fun value k => tape.Places i k (.expr value) :=
  have lt := placed.lt
  .node placed.starts (by omega) span (by
    change Row tape.Places i here (Node.ofExpr _)
    rw [children]
    exact placed.row.mono (Nat.le_refl _) le)

/-- `IS` places what it makes of the operand before it. -/
lemma isExpr_leads : (isExpr rules left).Leads tape here
    fun value k => tape.Places i k (.expr value) := by
  refine .skip fun _ _ _ => .ifKeyword ?_ <| .skip fun _ _ _ => (laid.operators _ _).bind
    fun _ _ _ right => ?_
  · exact suffix_leads placed (by omega) rfl rfl
  · exact .of_pure (binary_placed _ placed (by omega) right)

omit le in
/-- A binary operator places what it makes of its operands. -/
lemma binaryExpr_leads (power : Nat) : (binaryExpr rules left power).Leads tape j
    fun value k => tape.Places i k (.expr value) := by
  refine .current ?_
  split
  · next op _ =>
    have rest : (do
        let _ ← advance
        let right ← rules.operators (power + 1)
        return .binary left op right (left.span.merge right.span) : Parser Expr).Leads tape j
          fun value k => tape.Places i k (.expr value) := by
      refine .advance fun _ => ?_
      refine (laid.operators _ _).bind fun _ _ _ right => ?_
      exact .of_pure (binary_placed _ placed (by omega) right)
    exact .ite (.require rest) rest
  · trivial

omit le in
/-- An operator after an operand places what it makes of it, from that operand on. -/
lemma operatorAfter_leads (power : Nat) : (operatorAfter rules left power).Leads tape j
    fun value k => tape.Places i k (.expr value) := by
  refine .current ?_
  split
  · refine .skip fun _ _ _ => .skip fun collation _ _ => ?_
    exact suffix_leads placed (by omega) rfl rfl
  · exact .skip fun _ _ le => suffix_leads placed le rfl rfl
  · exact .skip fun _ _ le => suffix_leads placed le rfl rfl
  · exact .skip fun _ _ le => isExpr_leads laid placed le
  · exact .skip fun _ _ le => .ifKeyword (suffix_leads placed (by omega) rfl rfl)
      (negatable_leads laid placed le true)
  all_goals first
    | exact negatable_leads laid placed (Nat.le_refl _) false
    | exact binaryExpr_leads laid placed power

omit le in
/-- A turn of the operator loop places the larger expression, or leaves the one that was placed. -/
lemma nextOperator_leads (least : Nat) : (nextOperator rules least left).Leads tape j
    fun next k => next.elim (tape.Places i k (.expr left)) (tape.Places i k <| .expr ·) := by
  refine .view ?_
  split
  · refine .ite (.of_pure placed) ?_
    exact (operatorAfter_leads laid placed _).bind fun _ _ _ placed => .of_pure placed
  · exact .of_pure placed

omit placed le in
/-- **Expressions are placed between the ends of their runs.** -/
theorem expression_places (least : Nat) : (expression rules least).Places tape .expr := fun i =>
  (operand_places laid i).bind fun _ _ _ first =>
    .iterate (fun value j => tape.Places i j (.expr value)) _
      (fun _ _ placed => nextOperator_leads laid placed least) first

end

end SqlTree.Grammar
