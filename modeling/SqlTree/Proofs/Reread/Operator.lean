import SqlTree.Proofs.Operators
import SqlTree.Proofs.Reread.Operand

set_option autoImplicit false

/-!
# Reading operators again

## Main definitions

* `SqlTree.Rereading.Extends` — what is read after an operand is read again after an equal one.

## Main results

* `SqlTree.Rereading.nextOperator_again` — an operator is read again.
* `SqlTree.Rereading.expression_again` — expressions are read again.
-/

namespace SqlTree

/-- What stands in parentheses after `IN`. -/
def Form.inParentheses (drift : Bool) : Form InSource where
  words
    | .list items => (Form.expr drift).commas.words items
    | .subquery query => (Form.query drift).words query
    | _ => []
  nodes := Node.ofInSource
  bare := InSource.unplaced

namespace Rereading

open SqlTree.Parser SqlTree.Grammar

variable {E : Rereading} {n : Nat} {c c' c₁ c₁' : Cursor} {rest : List Word}

/-! ## Membership -/

/-- What stands in parentheses after `IN` is read again.

**Proof sketch.** By what was next. A closing parenthesis is next again if nothing stands before it.
A query and a list of expressions are read again first, and from how they start (`Known.sound'`,
`Known.exprs_start`) it follows that the tests before them fail again. -/
lemma inParentheses_again (known : E.Known n) :
    E.Reruns n (.inParentheses E.drift) E.Closes
      (do
        if ← sees (·.atSymbol .rightParen) then return .list []
        else if ← sees (·.atQuery) then return .subquery (← E.rules.query)
        else return .list (← E.rules.exprs))
      (do
        if ← sees (·.atSymbol .rightParen) then return .list []
        else if ← sees (·.atQuery) then return .subquery (← E.again.query)
        else return .list (← E.again.exprs)) := by
  intro c c' value c₁ rest run follows keeps safe closes
  rw [run_sees_bind] at run
  refine accepts_sees ?_
  split at run
  · obtain ⟨rfl, rfl⟩ := accepted_pure run
    have follows : E.Follows n c c' rest := follows
    rw [if_pos (closes.at_again follows)]
    exact .of_pure ⟨follows, rfl⟩
  · rw [run_sees_bind] at run
    split at run
    · obtain ⟨query, c₂, inner, -, run⟩ := accepted_bind run
      obtain ⟨rfl, rfl⟩ := accepted_pure run
      obtain ⟨query', c₂', inner', follows, same⟩ :=
        known.query inner follows keeps safe ⟨closes.quiet rfl, closes.done⟩
      have query' := known.sound'.query inner'
      rw [if_neg (fun close => by
        simp only [View.atQuery, View.atAnyKeyword, List.any_cons, List.any_nil, Bool.or_false,
          Bool.or_eq_true] at query'
        rcases query' with at_ | at_ | at_ <;> exact not_atSymbol at_ _ close)]
      refine accepts_sees ?_
      rw [if_pos query']
      exact accepts_of_run inner' (.of_pure ⟨follows, congrArg InSource.subquery same⟩)
    · obtain ⟨items, c₂, inner, -, run⟩ := accepted_bind run
      obtain ⟨rfl, rfl⟩ := accepted_pure run
      have safe : E.Safe (Node.each Node.expr items) := safe
      rw [each_eq] at safe
      obtain ⟨items', c₂', inner', follows, same⟩ :=
        known.exprs inner follows keeps safe (closes.quiet rfl)
      have starts := known.exprs_start inner'
      have same : items'.map Expr.unplaced = items.map Expr.unplaced := same
      rw [if_neg (starts.not_symbol rfl)]
      refine accepts_sees ?_
      rw [if_neg starts.not_query]
      exact accepts_of_run inner' (.of_pure
        ⟨follows, by simp [Form.inParentheses, InSource.unplaced, same]⟩)

/-- What stands in parentheses has its words between theirs. -/
lemma inParentheses_words (source : InSource)
    (inner : (∃ items, source = .list items) ∨ ∃ query, source = .subquery query) :
    (Form.inSource E.drift).words source = (Form.inParentheses E.drift).parens.words source := by
  rcases inner with ⟨items, rfl⟩ | ⟨query, rfl⟩
  · simp [Form.inSource, Form.inParentheses, Form.parens, InSource.pieces, Render.parens,
      Form.wordsOf_exprs]
  · simp [Form.inSource, Form.inParentheses, Form.parens, InSource.pieces, Render.parens,
      Form.query]

/-- What stands in parentheses is a list or a query. -/
lemma accepted_inParentheses {rules : Rules} {value : InSource}
    (run : (do
        if ← sees (·.atSymbol .rightParen) then return .list []
        else if ← sees (·.atQuery) then return .subquery (← rules.query)
        else return .list (← rules.exprs) : Parser InSource).run E.dialect c =
      .accepted value c₁) :
    (∃ items, value = .list items) ∨ ∃ query, value = .subquery query := by
  rw [run_sees_bind] at run
  split at run
  · obtain ⟨rfl, -⟩ := accepted_pure run
    exact .inl ⟨_, rfl⟩
  · rw [run_sees_bind] at run
    split at run
    · obtain ⟨query, c₂, -, -, run⟩ := accepted_bind run
      obtain ⟨rfl, -⟩ := accepted_pure run
      exact .inr ⟨_, rfl⟩
    · obtain ⟨items, c₂, -, -, run⟩ := accepted_bind run
      obtain ⟨rfl, -⟩ := accepted_pure run
      exact .inl ⟨_, rfl⟩

/-- What membership is tested in is read again.

**Proof sketch.** By what was next. Parentheses are next again, and what stands in them is read
again. A variable is next again, which is no parenthesis. A name is read again, and starts with a
token that is neither. -/
lemma inSource_again (known : E.Known n) :
    E.Reruns n (.inSource E.drift) (E.Quiet [.symbol .dot]) (inSource E.rules)
      (inSource E.again) := by
  intro c c' value c₁ rest run follows keeps safe quiet
  unfold inSource at run ⊢
  rw [run_view_bind] at run
  refine Accepts.congr ?_ (run_view_bind ..)
  split at run
  · obtain ⟨-, -, inner⟩ := accepted_expectSymbol run
    obtain ⟨found, c₂, part, -, close⟩ := accepted_bind inner
    obtain ⟨-, -, last⟩ := accepted_expectSymbol close
    obtain ⟨rfl, -⟩ := accepted_pure last
    rw [inParentheses_words _ (accepted_inParentheses part)] at follows
    obtain ⟨value', c₁', run', post⟩ := (inParentheses_again known).parenthesized
      (fun _ _ close keeps => ⟨close, keeps, _, rfl⟩) run follows keeps safe trivial
    rw [if_pos (accepted_expectSymbol run').1]
    exact ⟨value', c₁', run', post⟩
  · next notParen =>
    split at run
    · obtain ⟨which, c₂, inner, -, last⟩ := accepted_bind run
      obtain ⟨rfl, rfl⟩ := accepted_pure last
      obtain ⟨which', c₂', inner', follows, same⟩ :=
        variableExpr_again inner follows keeps safe trivial
      obtain ⟨kept, kind'⟩ := accepted_variableExpr inner'
      rw [if_neg (fun open_ => absurd ((kind_of_atSymbol open_).symm.trans kind') (by simp)),
        show c'.view.current.kind = _ from kind']
      exact accepts_of_run inner' (.of_pure ⟨follows, congrArg InSource.variable same⟩)
    · next notVariable =>
      split at run
      · obtain ⟨⟨schema, name⟩, c₂, inner, -, last⟩ := accepted_bind run
        obtain ⟨rfl, rfl⟩ := accepted_return last
        have follows : E.Follows n c c' (Form.qualified.words (schema, name) ++ rest) := by
          cases schema <;> exact follows
        obtain ⟨pair, c₂', inner', follows, same⟩ :=
          qualifiedName_again inner follows keeps safe_nil quiet
        obtain rfl : pair = (schema, name) := same
        obtain ⟨first, c₃', first', -, -⟩ := accepted_bind inner'
        have name' := (accepted_identifier first').1
        have kind' : c'.current.kind.isIdentifierLike = true := name'
        rw [if_neg (fun open_ => by
          rw [kind_of_atSymbol open_] at kind'
          exact absurd kind' Bool.false_ne_true)]
        split
        · next which kind =>
          rw [show c'.current.kind = _ from kind] at kind'
          exact absurd kind' Bool.false_ne_true
        · rw [if_pos name']
          exact accepts_of_run inner' (.of_return ⟨follows, rfl⟩)
      · exact absurd run not_accepted_unexpected

/-! ## What follows an operand -/

variable (E) in
/-- **What is read after an operand is read again after an equal one.** The value is written as the
operand with some words after it, of which those `before` have been read already. -/
def Extends (n : Nat) (left value : Expr) (before words : List Word) (c c₁ : Cursor)
    (p' : Expr → Parser Expr) : Prop :=
  (Form.expr E.drift).words value = (Form.expr E.drift).words left ++ (before ++ words) ∧
    (E.Safe [.expr value] → E.Safe [.expr left] ∧ ∀ ⦃left' : Expr⦄ ⦃c' : Cursor⦄
      ⦃rest : List Word⦄, left'.unplaced = left.unplaced → E.Follows n c c' (words ++ rest) →
      E.mode.left ≤ c₁.ahead.length → E.Quiet exprEnd c₁ rest →
      Accepts E.dialect (p' left') c' fun value' c₁' =>
        E.Follows n c₁ c₁' rest ∧ value'.unplaced = value.unplaced)

/-- The keyword between the ends of a range does not go on with its first end. -/
lemma quiet_and (at_ : c.view.atKeyword .AND = true) :
    E.Quiet exprEnd c (.ofKeyword .AND :: rest) := by
  refine .of_written fun _ starter mem => ?_
  have kind : (c.peek 0).kind = _ := kind_of_atKeyword at_
  simp only [exprEnd, List.mem_cons, List.not_mem_nil, or_false] at mem
  rcases mem with rfl | rfl | rfl | rfl | rfl | rfl
  · intro least
    rw [kind, operatorAt_of_power _ rfl rfl]
    exact fun at_ => (operatorAt_of_power _ rfl rfl).trans at_
  all_goals exact Starter.carries_of_first rfl

/-- The words of `NOT` where a test is negated. -/
def notWords (negated : Bool) : List Word :=
  if negated then [.ofKeyword .NOT] else []

/-- The words of a range are those of its operands, with its keywords between them. -/
lemma between_words (left low high : Expr) (negated : Bool) (span : Span) :
    (Form.expr E.drift).words (.between left low high negated span) =
      (Form.expr E.drift).words left ++ (notWords negated ++ .ofKeyword .BETWEEN ::
        ((Form.expr E.drift).words low ++ .ofKeyword .AND :: (Form.expr E.drift).words high)) := by
  simp [Form.expr, Expr.pieces, notWords, wordsOf_wordsIf]

/-- The words of a membership are those of its parts, with its keywords between them. -/
lemma isIn_words (left : Expr) (source : InSource) (negated : Bool) (span : Span) :
    (Form.expr E.drift).words (.isIn left source negated span) =
      (Form.expr E.drift).words left ++ (notWords negated ++ .ofKeyword .IN ::
        (Form.inSource E.drift).words source) := by
  simp [Form.expr, Form.inSource, Expr.pieces, notWords, wordsOf_wordsIf]

/-- The words of a match are those of its operands, with its keywords between them. -/
lemma like_words (left : Expr) (op : PatternOp) (pattern : Expr) (escape : Option Expr)
    (negated : Bool) (span : Span) :
    (Form.expr E.drift).words (.like left op pattern escape negated span) =
      (Form.expr E.drift).words left ++ (notWords negated ++ .ofKeyword op.keyword ::
        ((Form.expr E.drift).words pattern ++
          ((Form.expr E.drift).after [.ofKeyword .ESCAPE]).maybe.words escape)) := by
  cases escape <;>
    simp [Form.expr, Expr.pieces, notWords, wordsOf_wordsIf, Form.maybe, Form.after]

/-- The words of a test for null are those of its operand and its keywords. -/
lemma isNull_words (left : Expr) (negated : Bool) (span : Span) :
    (Form.expr E.drift).words (.isNull left negated span) =
      (Form.expr E.drift).words left ++ (.ofKeyword .IS :: (notWords negated ++
        [.ofKeyword .NULL])) := by
  simp [Form.expr, Expr.pieces, notWords, wordsOf_wordsIf]

/-- The kind of a match is told by its keyword. -/
lemma patternOp?_keyword {kind : TokenKind} {op : PatternOp} (found : patternOp? kind = some op) :
    kind = .keyword op.keyword := by
  unfold patternOp? at found
  split at found <;> simp_all <;> subst found <;> rfl

/-- The last operand of a pattern is read again. -/
lemma escape_again (known : E.Known n) :
    E.Reruns n ((Form.expr E.drift).after [.ofKeyword .ESCAPE]).maybe (E.Quiet exprEnd)
      (afterKeyword .ESCAPE (E.rules.operators (equalityPower + 1)))
      (afterKeyword .ESCAPE (E.again.operators (equalityPower + 1))) :=
  (known.operators _).afterKeyword fun _ _ quiet => ⟨quiet, quiet.mono rfl⟩

/-- Before the last operand of a pattern nothing goes on with the pattern but `ESCAPE`. -/
lemma escape_quiet {rules : Rules} {escape : Option Expr}
    (run : (afterKeyword .ESCAPE (rules.operators (equalityPower + 1))).run E.dialect c =
      .accepted escape c₁) (quiet : E.Quiet exprEnd c₁ rest) :
    E.Quiet exprEnd c
      (((Form.expr E.drift).after [.ofKeyword .ESCAPE]).maybe.words escape ++ rest) := by
  unfold afterKeyword at run
  rw [run_eatKeyword_bind] at run
  split at run
  · next at_ =>
    obtain ⟨value, c₂, -, -, last⟩ := accepted_bind run
    obtain ⟨rfl, rfl⟩ := accepted_pure last
    exact .at_keyword at_ rfl
  · obtain ⟨rfl, rfl⟩ := accepted_pure run
    exact quiet

/-- The range, membership or pattern that starts with a token of this kind. -/
def negatableOf (rules : Rules) (left : Expr) (negated : Bool) (kind : TokenKind) : Parser Expr :=
  match kind with
  | .keyword .BETWEEN => do
    let _ ← advance
    let low ← rules.operators (equalityPower + 1)
    let _ ← expectKeyword .AND
    let high ← rules.operators (equalityPower + 1)
    return .between left low high negated (← spanFrom left.span)
  | .keyword .IN => do
    let _ ← advance
    let source ← inSource rules
    return .isIn left source negated (← spanFrom left.span)
  | _ =>
    match patternOp? kind with
    | some op => do
      let _ ← advance
      let pattern ← rules.operators (equalityPower + 1)
      let escape ← afterKeyword .ESCAPE (rules.operators (equalityPower + 1))
      return .like left op pattern escape negated (← spanFrom left.span)
    | none => unexpected "IN, LIKE, GLOB, MATCH, REGEXP or BETWEEN"

/-- An operator that `NOT` may precede is read by the kind of the next token. -/
lemma run_negatable_of {rules : Rules} {left : Expr} {negated : Bool} {kind : TokenKind}
    (eq : c.current.kind = kind) :
    (negatable rules left negated).run E.dialect c =
      (negatableOf rules left negated kind).run E.dialect c := by
  subst eq
  rfl

/-- At the keyword of a match, its operands are read. -/
lemma negatableOf_pattern (rules : Rules) (left : Expr) (negated : Bool) (op : PatternOp) :
    negatableOf rules left negated (.keyword op.keyword) = (do
      let _ ← advance
      let pattern ← rules.operators (equalityPower + 1)
      let escape ← afterKeyword .ESCAPE (rules.operators (equalityPower + 1))
      return .like left op pattern escape negated (← spanFrom left.span)) := by
  cases op <;> rfl

/-- A range, a membership or a pattern is read again.

**Proof sketch.** By the keyword that was next, which is next again. The operands of a range are
separated by `AND`, which goes on with none of them, as they bind tighter. What membership is tested
in is read again (`inSource_again`), and so is a pattern, with `ESCAPE` if it is there. -/
lemma negatable_again (known : E.Known n) {left value : Expr} {negated : Bool}
    (run : (negatable E.rules left negated).run E.dialect c = .accepted value c₁) :
    ∃ word ws, c.current.kind = .keyword word ∧
      word ∈ [Keyword.BETWEEN, .IN, .LIKE, .GLOB, .MATCH, .REGEXP] ∧
      c₁.ahead.length ≤ c.advance.ahead.length ∧
      E.Extends n left value (notWords negated) (.ofKeyword word :: ws) c c₁
        (negatable E.again · negated) := by
  rw [run_negatable_of rfl] at run
  unfold negatableOf at run
  split at run
  · next kind =>
    obtain ⟨-, le, run⟩ := accepted_advance run
    obtain ⟨low, c₂, run₂, le₂, run⟩ := accepted_bind run
    obtain ⟨at₃, le₃, run⟩ := accepted_expectKeyword run
    obtain ⟨high, c₄, run₄, le₄, run⟩ := accepted_bind run
    obtain ⟨rfl, rfl⟩ := accepted_return run
    refine ⟨.BETWEEN, _, kind, by simp, le, between_words .., fun safe => ?_⟩
    have below : E.Safe [.expr left, .expr low, .expr high] := (safe_singleton.mp safe).2
    obtain ⟨safe₁, below⟩ := safe_cons.mp below
    obtain ⟨safe₂, safe₃⟩ := safe_cons.mp below
    refine ⟨safe₁, fun left' c' rest same follows keeps quiet => ?_⟩
    simp only [List.cons_append, List.append_assoc] at follows
    obtain ⟨at', follows, -⟩ := follows.keyword (atKeyword_of_kind kind) (Nat.le_trans keeps le)
    refine Accepts.congr ?_ (run_negatable_of (kind_of_atKeyword at'))
    refine accepts_advance (sound_of_atKeyword at') ?_
    refine (known.operators _).step run₂ follows (Nat.le_trans keeps le₂) safe₂ (quiet_and at₃)
      fun low' c₂' _ (same₂ : low'.unplaced = low.unplaced) follows => ?_
    refine follows.expectKeyword at₃ (Nat.le_trans keeps le₃) fun _ follows _ => ?_
    refine (known.operators _).step run₄ follows keeps safe₃ quiet
      fun high' c₄' _ (same₃ : high'.unplaced = high.unplaced) follows => ?_
    exact .of_return ⟨follows, by simp [Expr.unplaced, same, same₂, same₃]⟩
  · next kind =>
    obtain ⟨-, le, run⟩ := accepted_advance run
    obtain ⟨source, c₂, run₂, le₂, run⟩ := accepted_bind run
    obtain ⟨rfl, rfl⟩ := accepted_return run
    refine ⟨.IN, _, kind, by simp, le, isIn_words .., fun safe => ?_⟩
    have below : E.Safe (.expr left :: Node.ofInSource source) := (safe_singleton.mp safe).2
    obtain ⟨safe₁, safe₂⟩ := safe_cons.mp below
    refine ⟨safe₁, fun left' c' rest same follows keeps quiet => ?_⟩
    simp only [List.cons_append] at follows
    obtain ⟨at', follows, -⟩ := follows.keyword (atKeyword_of_kind kind) (Nat.le_trans keeps le)
    refine Accepts.congr ?_ (run_negatable_of (kind_of_atKeyword at'))
    refine accepts_advance (sound_of_atKeyword at') ?_
    refine (inSource_again known).step run₂ follows keeps safe₂ (quiet.mono rfl)
      fun source' c₂' _ (same₂ : source'.unplaced = source.unplaced) follows => ?_
    exact .of_return ⟨follows, by simp [Expr.unplaced, same, same₂]⟩
  · split at run
    · next op found =>
      have kind := patternOp?_keyword found
      obtain ⟨-, le, run⟩ := accepted_advance run
      obtain ⟨pattern, c₂, run₂, le₂, run⟩ := accepted_bind run
      obtain ⟨escape, c₃, run₃, le₃, run⟩ := accepted_bind run
      obtain ⟨rfl, rfl⟩ := accepted_return run
      refine ⟨op.keyword, _, kind, by cases op <;> simp [PatternOp.keyword], le, like_words ..,
        fun safe => ?_⟩
      have below : E.Safe (.expr left :: .expr pattern :: Node.maybe Node.expr escape) :=
        (safe_singleton.mp safe).2
      obtain ⟨safe₁, below⟩ := safe_cons.mp below
      obtain ⟨safe₂, safe₃⟩ := safe_cons.mp below
      rw [maybe_eq] at safe₃
      refine ⟨safe₁, fun left' c' rest same follows keeps quiet => ?_⟩
      simp only [List.cons_append, List.append_assoc] at follows
      obtain ⟨at', follows, -⟩ := follows.keyword (atKeyword_of_kind kind) (Nat.le_trans keeps le)
      refine Accepts.congr ?_ (run_negatable_of (kind_of_atKeyword at'))
      rw [negatableOf_pattern]
      refine accepts_advance (sound_of_atKeyword at') ?_
      refine (known.operators _).step run₂ follows (Nat.le_trans keeps le₂) safe₂
        (escape_quiet run₃ quiet)
        fun pattern' c₂' _ (same₂ : pattern'.unplaced = pattern.unplaced) follows => ?_
      refine (escape_again known).step run₃ follows keeps safe₃ quiet
        fun escape' c₃' _ same₃ follows => ?_
      have same₃ : escape'.map Expr.unplaced = escape.map Expr.unplaced := same₃
      exact .of_return ⟨follows, by simp [Expr.unplaced, same, same₂, same₃]⟩
    · exact absurd run not_accepted_unexpected

/-! ## Comparisons with `IS` -/

/-- The words that make a comparison one of distinctness. -/
def distinctFrom : Parser (Option Span) :=
  whenever (·.atKeyword .DISTINCT) do
    require .isDistinctFrom "IS DISTINCT FROM" (← here)
    let _ ← advance
    expectKeyword .FROM

/-- A comparison after `IS` and `NOT`. -/
def comparison (rules : Rules) (left : Expr) (negated : Bool) : Parser Expr := do
  let distinct ← distinctFrom
  let right ← rules.operators (equalityPower + 1)
  let op := if negated != distinct.isSome then .isNot else .is
  return .binary left op right (left.span.merge right.span)

/-- `IS` is followed by `NULL`, or by a comparison. -/
lemma isExpr_eq (rules : Rules) (left : Expr) :
    isExpr rules left = (do
      let negated ← eatKeyword .NOT
      if ← eatKeyword .NULL then return .isNull left negated (← spanFrom left.span)
      else comparison rules left negated) := rfl

/-- Without `DISTINCT` a comparison is not one of distinctness. -/
lemma run_distinctFrom_none (not : ¬ c.view.atKeyword .DISTINCT = true) :
    distinctFrom.run E.dialect c = .accepted none c := by
  unfold distinctFrom whenever
  rw [run_sees_bind, if_neg not]
  rfl

/-- In a copy, the words that make a comparison one of distinctness are read again.

**Proof sketch.** If `DISTINCT` was next, then both keywords are next again, and the feature is
demanded again. If it was not, it is not next again in a copy. -/
lemma distinctFrom_copy {value : Option Span} (copy : E.mode ≠ .written)
    (run : distinctFrom.run E.dialect c = .accepted value c₁) (follows : E.Follows n c c' rest)
    (keeps : E.mode.left ≤ c₁.ahead.length) :
    Accepts E.dialect distinctFrom c' fun value' c₁' =>
      E.Follows n c₁ c₁' rest ∧ value'.isSome = value.isSome := by
  unfold distinctFrom whenever at run
  rw [run_sees_bind] at run
  split at run
  · next at_ =>
    obtain ⟨span, c₂, inner, -, last⟩ := accepted_bind run
    obtain ⟨rfl, rfl⟩ := accepted_pure last
    rw [run_here_bind] at inner
    obtain ⟨has, inner⟩ := accepted_require inner
    obtain ⟨-, le, inner⟩ := accepted_advance inner
    rw [← run_bind_pure] at inner
    obtain ⟨at₂, le₂, inner⟩ := accepted_expectKeyword inner
    obtain ⟨rfl, rfl⟩ := accepted_pure inner
    have follows := follows.of_copy copy (.ofKeyword .DISTINCT :: .ofKeyword .FROM :: rest)
    obtain ⟨at', follows, -⟩ := follows.keyword at_ (Nat.le_trans keeps le)
    obtain ⟨at₂', follows, -⟩ := follows.keyword at₂ keeps
    unfold distinctFrom whenever
    refine accepts_sees ?_
    rw [if_pos at']
    refine ⟨some c'.advance.current.span, c'.advance.advance, ?_, follows, rfl⟩
    rw [run_bind, run_here_bind, run_bind]
    simp only [require, Parser.run, has, if_true]
    rw [run_advance_bind (sound_of_atKeyword at'), ← run_bind_pure, run_expectKeyword_bind at₂']
    rfl
  · next not =>
    obtain ⟨rfl, rfl⟩ := accepted_pure run
    have quiet : E.Quiet [.keyword .DISTINCT] c rest :=
      .of_written fun written => absurd written copy
    exact ⟨none, c', run_distinctFrom_none (quiet.not_keyword follows rfl not), follows, rfl⟩

section

variable {left left' right : Expr} {negated : Bool} {distinct : Option Span} {c₂ : Cursor}

/-- In a copy, a comparison is read again after `IS` and `NOT`. -/
lemma comparison_copy (known : E.Known n) (copy : E.mode ≠ .written)
    (run₁ : distinctFrom.run E.dialect c = .accepted distinct c₂)
    (run₂ : (E.rules.operators (equalityPower + 1)).run E.dialect c₂ = .accepted right c₁)
    (same : left'.unplaced = left.unplaced) (follows : E.Follows n c c' rest)
    (keeps : E.mode.left ≤ c₁.ahead.length) (safe : E.Safe [.expr right])
    (quiet : E.Quiet exprEnd c₁ rest) (span : Span) :
    Accepts E.dialect (comparison E.again left' negated) c' fun value' c₁' =>
      E.Follows n c₁ c₁' rest ∧ value'.unplaced =
        (Expr.binary left (if negated != distinct.isSome then .isNot else .is) right
          span).unplaced := by
  have keeps₂ := Nat.le_trans keeps (accepted_length run₂)
  refine (distinctFrom_copy copy run₁ follows keeps₂).bind ?_
  rintro distinct' c₂' - ⟨follows, there⟩
  have follows := follows.of_copy copy ((Form.expr E.drift).words right ++ rest)
  refine (known.operators _).step run₂ follows keeps safe quiet
    fun right' c₁' _ (same' : right'.unplaced = right.unplaced) follows => ?_
  exact .of_pure ⟨follows, by simp only [Expr.unplaced, same, same', there]⟩

/-- In written text, a comparison is read again after `IS` and `NOT`, if its right operand has not
been taken for a part of the operator. -/
lemma comparison_written (known : E.Known n) (written : E.mode = .written)
    (run₁ : distinctFrom.run E.dialect c = .accepted distinct c₂)
    (run₂ : (E.rules.operators (equalityPower + 1)).run E.dialect c₂ = .accepted right c₁)
    (same : left'.unplaced = left.unplaced)
    (follows : E.Follows n c c' ((Form.expr E.drift).words right ++ rest))
    (keeps : E.mode.left ≤ c₁.ahead.length) (safe : E.Safe [.expr right])
    (quiet : E.Quiet exprEnd c₁ rest) (span : Span) :
    Accepts E.dialect (comparison E.again left' negated) c' fun value' c₁' =>
      E.Follows n c₁ c₁' rest ∧ value'.unplaced =
        (Expr.binary left (if negated then .isNot else .is) right span).unplaced := by
  have follows := follows.of_written written (accepted_reachable run₁ follows.reached)
  obtain ⟨right', c₁', run', follows, same'⟩ := known.operators _ run₂ follows keeps safe quiet
  have notDistinct : ¬ c'.view.atKeyword .DISTINCT = true :=
    (known.sound'.expr run').not_keyword rfl
  have same' : right'.unplaced = right.unplaced := same'
  refine accepts_of_run (run_distinctFrom_none notDistinct) (accepts_of_run run' ?_)
  exact .of_pure ⟨follows, by simp [Expr.unplaced, same, same']⟩

end

/-- The words of a comparison by `IS` are those of its operands, with the keywords between them. -/
lemma is_words (left right : Expr) (op : BinaryOp) (span : Span) (is_op : op = .is ∨ op = .isNot) :
    (Form.expr E.drift).words (.binary left op right span) =
      (Form.expr E.drift).words left ++ ([.ofKeyword .IS] ++ (notWords (op = .isNot) ++
        (Form.expr E.drift).words right)) := by
  rcases is_op with rfl | rfl <;> simp [Form.expr, Expr.pieces, BinaryOp.pieces, notWords]

/-- An expression has words. -/
lemma words_ne_nil (expr : Expr) : (Form.expr E.drift).words expr ≠ [] := by
  intro empty
  obtain ⟨word, more, eq, -⟩ := Expr.front_words E.drift expr []
  rw [List.append_nil, show Render.wordsOf E.drift expr.pieces = [] from empty] at eq
  exact absurd eq (by simp)

/-- What follows `IS` is read again.

**Proof sketch.** With `NULL` after it, the keywords are next again. Otherwise by the mode. A
written text has `IS` or `IS NOT`, depending on `NOT` and `DISTINCT FROM` in the source, and the
second operand starts with neither `NOT` nor `NULL`, because the comparison is safe; then it is read
again (`comparison_written`). A copy has the same keywords again (`comparison_copy`). -/
lemma isExpr_again (known : E.Known n) {left value : Expr}
    (run : (isExpr E.rules left).run E.dialect c = .accepted value c₁) :
    ∃ ws, E.Extends n left value [.ofKeyword .IS] ws c c₁ (isExpr E.again) := by
  rw [isExpr_eq] at run
  obtain ⟨negated, c₂, run₁, le₁, run⟩ := accepted_bind run
  rw [run_eatKeyword_bind] at run
  split at run
  · next at_ =>
    obtain ⟨rfl, rfl⟩ := accepted_return run
    refine ⟨notWords negated ++ [.ofKeyword .NULL], isNull_words .., fun safe => ?_⟩
    refine ⟨(safe_singleton.mp safe).2, fun left' c' rest same follows keeps quiet => ?_⟩
    rw [isExpr_eq]
    rw [List.append_assoc] at follows
    refine (eatKeyword_again .NOT).plain rfl run₁ follows (Nat.le_trans keeps le₁) safe_nil
      (.front rfl) fun c₂' _ follows => ?_
    exact follows.eatKeyword at_ keeps fun follows _ =>
      .of_return ⟨follows, by simp [Expr.unplaced, same]⟩
  · next notNull =>
    rw [if_neg Bool.false_ne_true] at run
    obtain ⟨distinct, c₃, run₃, le₃, run⟩ := accepted_bind run
    obtain ⟨right, c₄, run₄, le₄, run⟩ := accepted_bind run
    obtain ⟨rfl, rfl⟩ := accepted_pure run
    refine ⟨_, is_words _ _ _ _ (by split <;> simp), fun safe => ?_⟩
    obtain ⟨own, below⟩ := safe_singleton.mp safe
    have below : E.Safe [.expr left, .expr right] := below
    obtain ⟨safe₁, safe₂⟩ := safe_cons.mp below
    refine ⟨safe₁, fun left' c' rest same follows keeps quiet => ?_⟩
    rw [isExpr_eq]
    by_cases written : E.mode = .written
    · have move : ∀ {c'' : Cursor} {words : List Word}, E.Follows n c c'' words →
          E.Follows n c₂ c'' words := fun follows => follows.of_written written
        (accepted_reachable run₁ follows.reached)
      have next : ∀ {c'' : Cursor} {word : Keyword},
          E.Follows n c c'' ((Form.expr E.drift).words right ++ rest) →
          Word.kindAt ((Form.expr E.drift).words right) 0 ≠ .keyword word →
          ¬ c''.view.atKeyword word = true := by
        intro c'' word follows ne at''
        have kind : (c''.peek 0).kind = _ := kind_of_atKeyword at''
        rw [follows.peek, plan_written written, Word.kindAt_append (words_ne_nil right)] at kind
        exact ne kind
      have keepsComparison := (own written).1
      cases polarity : negated != distinct.isSome with
      | false =>
        rw [polarity] at follows keepsComparison
        have follows : E.Follows n c c' ((Form.expr E.drift).words right ++ rest) := follows
        refine skipKeyword (next follows keepsComparison.1) ?_
        refine skipKeyword (next follows keepsComparison.2) ?_
        exact comparison_written known written run₃ run₄ same (move follows) keeps safe₂ quiet
          (left.span.merge right.span)
      | true =>
        rw [polarity] at follows keepsComparison
        have follows : E.Follows n c c' (.ofKeyword .NOT ::
          ((Form.expr E.drift).words right ++ rest)) := follows
        obtain ⟨kind, -, follows, -⟩ := follows.spelled written
        refine takeKeyword (atKeyword_of_kind kind) ?_
        refine skipKeyword (next follows keepsComparison) ?_
        exact comparison_written known written run₃ run₄ same (move follows) keeps safe₂ quiet
          (left.span.merge right.span)
    · have silent : ∀ {starters c rest}, E.Quiet starters c rest :=
        .of_written fun is_written => absurd is_written written
      have follows := follows.of_copy written ((Form.flag [.ofKeyword .NOT]).words negated ++ rest)
      refine (eatKeyword_again .NOT).plain rfl run₁ follows (Nat.le_trans keeps le₁) safe_nil
        silent fun c₂' _ follows => ?_
      have quietNull : E.Quiet [.keyword .NULL] c₂ rest := silent
      refine skipKeyword (quietNull.not_keyword follows rfl notNull) ?_
      exact comparison_copy known written run₃ run₄ same follows keeps safe₂ quiet _

/-! ## Operators of one token -/

/-- An operator of one token is written as one word, which is the same operator with the same
power. -/
lemma binaryOp?_word (drift : Bool) {kind : TokenKind} {op : BinaryOp}
    (found : binaryOp? kind = some op) :
    ∃ word, Render.wordsOf drift op.pieces = [word] ∧ binaryOp? word.kind = some op ∧
      infixPower word.kind = infixPower kind ∧ kind.isMalformed = false ∧
      kind ≠ .endOfInput := by
  unfold binaryOp? at found
  split at found <;> cases found <;> exact ⟨_, rfl, rfl, rfl, rfl, by simp⟩

/-- A binary operator is read if its token is next, and the dialect has its feature. -/
lemma accepts_binaryExpr {rules : Rules} {left : Expr} {power : Nat} {op : BinaryOp}
    {post : Expr → Cursor → Prop} (found : binaryOp? c'.current.kind = some op)
    (has : op = .jsonExtract ∨ op = .jsonExtractText → E.dialect.supports .jsonArrows = true)
    (accepts : Accepts E.dialect (binaryAfter rules left power op) c'.advance post) :
    Accepts E.dialect (binaryExpr rules left power) c' post :=
  accepts.congr (run_binaryExpr found has)

/-- An operator of one token is read again. -/
lemma binaryExpr_again (known : E.Known n) {left value : Expr} {power : Nat}
    (run : (binaryExpr E.rules left power).run E.dialect c = .accepted value c₁) :
    ∃ word ws, infixPower word.kind = infixPower c.current.kind ∧
      E.Extends n left value [] (word :: ws) c c₁
        fun left' => operatorAfter E.again left' power := by
  obtain ⟨op, found, has, le, run⟩ := accepted_binaryExpr run
  obtain ⟨word, eq, found', power', -, some⟩ := binaryOp?_word E.drift found
  obtain ⟨right, c₂, run₂, le₂, last⟩ := accepted_bind run
  obtain ⟨rfl, rfl⟩ := accepted_pure last
  refine ⟨word, (Form.expr E.drift).words right, power', ?_, fun safe => ?_⟩
  · simp [Form.expr, Expr.pieces, eq]
  · have below : E.Safe [.expr left, .expr right] := (safe_singleton.mp safe).2
    obtain ⟨safe₁, safe₂⟩ := safe_cons.mp below
    refine ⟨safe₁, fun left' c' rest same follows keeps quiet => ?_⟩
    rw [List.cons_append] at follows
    obtain ⟨next, -, seen⟩ :=
      follows.take (ahead_of_kind follows.reached some) (Nat.le_trans keeps le)
    have found'' : binaryOp? c'.current.kind = Option.some op := by
      rcases seen with ⟨-, kind, -⟩ | ⟨-, kind, -⟩
      · rw [kind]; exact found
      · rw [kind]; exact found'
    refine Accepts.congr ?_ (run_operatorAfter_of rfl)
    rw [operatorOf_binary found'']
    refine accepts_binaryExpr found'' has ?_
    refine (known.operators _).step run₂ next keeps safe₂ quiet
      fun right' c₂' _ (same₂ : right'.unplaced = right.unplaced) follows => ?_
    exact .of_pure ⟨follows, by simp [Expr.unplaced, same, same₂]⟩

/-! ## All operators -/

/-- All tests for null are written with `IS`. -/
lemma isNull_written {left left' : Expr} {negated : Bool} {power : Nat} {span : Span}
    (written : E.mode = .written) (reached : c₁.Reachable E.drift)
    (same : left'.unplaced = left.unplaced)
    (follows : E.Follows n c c'
      (.ofKeyword .IS :: (notWords negated ++ .ofKeyword .NULL :: rest))) :
    Accepts E.dialect (operatorAfter E.again left' power) c' fun value' c₁' =>
      E.Follows n c₁ c₁' rest ∧ value'.unplaced = (Expr.isNull left negated span).unplaced := by
  obtain ⟨kind₁, -, follows, -⟩ := follows.spelled written
  refine Accepts.congr ?_ (run_operatorAfter_of kind₁)
  refine accepts_advance (by rw [kind₁]; rfl) ?_
  rw [isExpr_eq]
  cases negated with
  | false =>
    have follows : E.Follows n c _ (.ofKeyword .NULL :: rest) := follows
    obtain ⟨kind₂, -, follows, -⟩ := follows.spelled written
    have at₂ := atKeyword_of_kind kind₂
    refine skipKeyword (not_otherKeyword at₂ (by decide)) (takeKeyword at₂ ?_)
    exact .of_return ⟨follows.of_written written reached, by simp [Expr.unplaced, same]⟩
  | true =>
    have follows : E.Follows n c _ (.ofKeyword .NOT :: .ofKeyword .NULL :: rest) := follows
    obtain ⟨kind₂, -, follows, -⟩ := follows.spelled written
    obtain ⟨kind₃, -, follows, -⟩ := follows.spelled written
    refine takeKeyword (atKeyword_of_kind kind₂) (takeKeyword (atKeyword_of_kind kind₃) ?_)
    exact .of_return ⟨follows.of_written written reached, by simp [Expr.unplaced, same]⟩

section

variable {left value : Expr} {power : Nat}

/-- A test for null that is a single keyword is read again, or written with `IS`. -/
lemma nullTest_again (left : Expr) (power : Nat) {word : Keyword} {negated : Bool}
    (kind : c.current.kind = .keyword word)
    (isolated : ∀ rules left, operatorOf rules left power (.keyword word) = do
      let _ ← advance
      return .isNull left negated (← spanFrom left.span)) :
    ∃ ws, E.Extends n left (.isNull left negated (c.advance.spanFrom left.span)) []
      (.ofKeyword .IS :: ws) c c.advance fun left' => operatorAfter E.again left' power := by
  refine ⟨notWords negated ++ [.ofKeyword .NULL], isNull_words .., fun safe => ?_⟩
  refine ⟨(safe_singleton.mp safe).2, fun left' c' rest same follows keeps quiet => ?_⟩
  simp only [List.cons_append, List.append_assoc, List.nil_append] at follows
  by_cases written : E.mode = .written
  · exact isNull_written written follows.reached.advance same follows
  · have follows := follows.of_copy written (.ofKeyword word :: rest)
    obtain ⟨at', follows, -⟩ := follows.keyword (atKeyword_of_kind kind) keeps
    refine Accepts.congr ?_ (run_operatorAfter_of (kind_of_atKeyword at'))
    rw [isolated]
    exact accepts_advance (sound_of_atKeyword at')
      (.of_return ⟨follows, by simp [Expr.unplaced, same]⟩)

/-- What follows `NOT` after an operand is read again.

**Proof sketch.** `NOT NULL` is written as `IS NOT NULL`, and read again as such (`isNull_written`);
in a copy the same keywords are next again. Any other operator after `NOT` is read again after it
(`negatable_again`). -/
lemma notAfter_again (known : E.Known n) (power : Nat)
    (kind : c.current.kind = .keyword .NOT)
    (run : (do
      if ← eatKeyword .NULL then return .isNull left true (← spanFrom left.span)
      else negatable E.rules left true : Parser Expr).run E.dialect c.advance =
        .accepted value c₁) :
    ∃ word ws, infixPower word.kind = some equalityPower ∧
      E.Extends n left value [] (word :: ws) c c₁
        fun left' => operatorAfter E.again left' power := by
  have at_ := atKeyword_of_kind kind
  have le := accepted_length run
  rw [run_eatKeyword_bind] at run
  split at run
  · next at₂ =>
    obtain ⟨rfl, rfl⟩ := accepted_return run
    refine ⟨.ofKeyword .IS, [.ofKeyword .NOT, .ofKeyword .NULL], rfl, isNull_words ..,
      fun safe => ?_⟩
    refine ⟨(safe_singleton.mp safe).2, fun left' c' rest same follows keeps quiet => ?_⟩
    by_cases written : E.mode = .written
    · have follows : E.Follows n c c' (.ofKeyword .IS :: (notWords true ++
        .ofKeyword .NULL :: rest)) := follows
      exact isNull_written written follows.reached.advance.advance same follows
    · have follows := follows.of_copy written (.ofKeyword .NOT :: .ofKeyword .NULL :: rest)
      obtain ⟨at', follows, -⟩ := follows.keyword at_ (Nat.le_trans keeps le)
      refine Accepts.congr ?_ (run_operatorAfter_of (kind_of_atKeyword at'))
      refine accepts_advance (sound_of_atKeyword at') ?_
      exact follows.eatKeyword at₂ keeps fun follows _ =>
        .of_return ⟨follows, by simp [Expr.unplaced, same]⟩
  · next notNull =>
    rw [if_neg Bool.false_ne_true] at run
    obtain ⟨word, ws, kind₂, mem, le₂, words, again⟩ := negatable_again known run
    refine ⟨.ofKeyword .NOT, .ofKeyword word :: ws, rfl, words, fun safe => ⟨(again safe).1, ?_⟩⟩
    intro left' c' rest same follows keeps quiet
    obtain ⟨at', follows, -⟩ := follows.keyword at_ (Nat.le_trans keeps le)
    refine Accepts.congr ?_ (run_operatorAfter_of (kind_of_atKeyword at'))
    refine accepts_advance (sound_of_atKeyword at') ?_
    refine skipKeyword (follows.notKeyword (atKeyword_of_kind kind₂) (Nat.le_trans keeps le₂) ?_) ?_
    · rintro rfl
      exact absurd mem (by decide)
    · exact (again safe).2 same follows keeps quiet

/-- A range, a membership or a pattern that is not negated is an operator that is read again. -/
lemma plainNegatable_again (known : E.Known n) (power : Nat)
    (run : (negatable E.rules left false).run E.dialect c = .accepted value c₁) :
    ∃ word ws, infixPower word.kind = some equalityPower ∧
      c₁.ahead.length ≤ c.advance.ahead.length ∧
      E.Extends n left value [] (word :: ws) c c₁
        fun left' => operatorAfter E.again left' power := by
  obtain ⟨word, ws, kind, mem, le, words, again⟩ := negatable_again known run
  refine ⟨.ofKeyword word, ws, ?_, le, words, fun safe => ⟨(again safe).1, ?_⟩⟩
  · simp only [List.mem_cons, List.not_mem_nil, or_false] at mem
    rcases mem with rfl | rfl | rfl | rfl | rfl | rfl <;> rfl
  · intro left' c' rest same follows keeps quiet
    have at' := (follows.keyword (atKeyword_of_kind kind) (Nat.le_trans keeps le)).1
    refine Accepts.congr ?_ (run_operatorAfter_of (kind_of_atKeyword at'))
    rw [operatorOf_negatable mem]
    exact (again safe).2 same follows keeps quiet

/-- **An operator and its further operands are read again.**

**Proof sketch.** By the kind of the next token. For `COLLATE`, `IS` and `NOT` the keyword is next
again, and what follows is read again. `ISNULL` and `NOTNULL` are written as `IS NULL` and
`IS NOT NULL` (`nullTest_again`). All other operators are read again by their own lemmas. -/
lemma operatorAfter_again (known : E.Known n)
    (run : (operatorAfter E.rules left power).run E.dialect c = .accepted value c₁)
    (is_power : infixPower c.current.kind = some power) :
    ∃ word ws, infixPower word.kind = some power ∧ c₁.ahead.length ≤ c.advance.ahead.length ∧
      E.Extends n left value [] (word :: ws) c c₁
        fun left' => operatorAfter E.again left' power := by
  rw [run_operatorAfter_of rfl] at run
  unfold operatorOf at run
  split at run
  · next kind =>
    obtain ⟨-, le, run⟩ := accepted_advance run
    obtain ⟨collation, c₂, run₂, le₂, run⟩ := accepted_bind run
    obtain ⟨rfl, rfl⟩ := accepted_return run
    rw [kind] at is_power
    refine ⟨.ofKeyword .COLLATE, [.ofName collation], is_power, le, ?_, fun safe => ?_⟩
    · simp [Form.expr, Expr.pieces]
    · refine ⟨(safe_singleton.mp safe).2, fun left' c' rest same follows keeps quiet => ?_⟩
      obtain ⟨at', follows, -⟩ := follows.keyword (atKeyword_of_kind kind) (Nat.le_trans keeps le)
      refine Accepts.congr ?_ (run_operatorAfter_of (kind_of_atKeyword at'))
      refine accepts_advance (sound_of_atKeyword at') ?_
      refine identifier_again.plain rfl run₂ follows keeps safe_nil trivial fun c₂' _ follows => ?_
      exact .of_return ⟨follows, by simp [Expr.unplaced, same]⟩
  · next kind =>
    obtain ⟨-, le, run⟩ := accepted_advance run
    obtain ⟨rfl, rfl⟩ := accepted_return run
    obtain ⟨ws, again⟩ := nullTest_again left power kind fun _ _ => rfl
    exact ⟨_, ws, by rw [kind] at is_power; exact is_power, le, again⟩
  · next kind =>
    obtain ⟨-, le, run⟩ := accepted_advance run
    obtain ⟨rfl, rfl⟩ := accepted_return run
    obtain ⟨ws, again⟩ := nullTest_again left power kind fun _ _ => rfl
    exact ⟨_, ws, by rw [kind] at is_power; exact is_power, le, again⟩
  · next kind =>
    obtain ⟨-, le, run⟩ := accepted_advance run
    obtain ⟨ws, words, again⟩ := isExpr_again known run
    rw [kind] at is_power
    refine ⟨.ofKeyword .IS, ws, is_power, le, words, fun safe => ⟨(again safe).1, ?_⟩⟩
    intro left' c' rest same follows keeps quiet
    obtain ⟨at', follows, -⟩ := follows.keyword (atKeyword_of_kind kind) (Nat.le_trans keeps le)
    refine Accepts.congr ?_ (run_operatorAfter_of (kind_of_atKeyword at'))
    exact accepts_advance (sound_of_atKeyword at') ((again safe).2 same follows keeps quiet)
  · next kind =>
    obtain ⟨-, le, run⟩ := accepted_advance run
    obtain ⟨word, ws, power', again⟩ := notAfter_again known power kind run
    rw [kind] at is_power
    exact ⟨word, ws, power'.trans is_power, le, again⟩
  all_goals try
    next kind =>
      obtain ⟨word, ws, power', le, again⟩ := plainNegatable_again known power run
      rw [kind] at is_power
      exact ⟨word, ws, power'.trans is_power, le, again⟩
  · obtain ⟨word, ws, power', again⟩ := binaryExpr_again known run
    exact ⟨word, ws, power'.trans is_power,
      (accepted_binaryExpr run).elim fun _ h => h.2.2.1, again⟩

end

/-! ## Chains of operators -/

section

variable {rules : Rules} {left value : Expr} {least power : Nat}

/-- After `NOT` only some operators are read. -/
lemma startsNegated_of_operatorAfter
    (run : (operatorAfter rules left power).run E.dialect c = .accepted value c₁)
    (at_ : c.view.atKeyword .NOT = true) : startsNegated c.view = true := by
  rw [run_operatorAfter_of (kind_of_atKeyword at_)] at run
  obtain ⟨-, -, run⟩ := accepted_advance run
  rw [run_eatKeyword_bind] at run
  have follows : ∀ word, c.advance.current.kind = .keyword word →
      word ∈ [Keyword.IN, .LIKE, .GLOB, .MATCH, .REGEXP, .BETWEEN, .NULL] →
      startsNegated c.view = true := by
    intro word kind mem
    unfold Cursor.current at kind
    rw [Cursor.peek_advance] at kind
    refine List.any_eq_true.mpr ⟨word, mem, ?_⟩
    change (c.peek 1).isKeyword word = true
    rw [Token.isKeyword_eq, kind]
    simp
  split at run
  · next null => exact follows .NULL (kind_of_atKeyword null) (by simp)
  · rw [if_neg Bool.false_ne_true, run_negatable_of rfl] at run
    unfold negatableOf at run
    split at run
    · next kind => exact follows _ kind (by simp)
    · next kind => exact follows _ kind (by simp)
    · split at run
      · next op found =>
        exact follows _ (patternOp?_keyword found) (by cases op <;> simp [PatternOp.keyword])
      · exact absurd run not_accepted_unexpected

end

/-- Where the first source gets shorter by written words, the second one does. -/
lemma Follows.shorter {word : Word} {ws : List Word}
    (follows : E.Follows n c c' (word :: ws ++ rest)) (next : E.Follows n c₁ c₁' rest)
    (less : c₁.ahead.length < c.ahead.length) (keeps : E.mode.left ≤ c₁.ahead.length) :
      c₁'.ahead.length < c'.ahead.length := by
  rw [follows.spells.length, next.spells.length]
  unfold plan
  cases mode : E.mode with
  | written =>
    have : rest.length < (word :: ws ++ rest).length := by
      rw [List.length_append, List.length_cons]
      omega
    exact this
  | copy left =>
    rw [mode] at keeps
    simp only [Mode.left] at keeps
    simp only [List.length_take, Cursor.length_words]
    omega

/-- Before an operator only the operator goes on with the operand. -/
lemma quiet_operator {least power : Nat} {word : Word} {ws : List Word}
    (found : infixPower c.current.kind = some power)
    (goes : operatorAt least (c.peek 0).kind (c.peek 1).kind = true)
    (found' : infixPower word.kind = some power) : E.Quiet exprEnd c (word :: ws) := by
  refine .of_written fun _ starter mem => ?_
  have inert : ∀ kind, infixPower kind = none → word.kind ≠ kind := by
    rintro kind none rfl
    exact absurd (none.symm.trans found') (by simp)
  simp only [exprEnd, List.mem_cons, List.not_mem_nil, or_false] at mem
  rcases mem with rfl | rfl | rfl | rfl | rfl | rfl
  · intro least' at_
    exact operatorAt_of_le goes found (le_of_operatorAt at_ found')
  all_goals
    refine Starter.carries_of_first ?_
    simp only [Starter.first, Word.kindAt_cons_zero, ← Bool.not_eq_true, TokenKind.isKeyword_iff,
      TokenKind.isSymbol_iff]
    exact inert _ rfl

/-- **An operator is read again** by a reading that takes in at least the operators of the first
one.

**Proof sketch.** What stands after the test is read again (`operatorAfter_again`), so only the test
is left. The token is of the same kind or of the kind of the word that is written for it, and both
have the same power, which is at least what the second reading asks for. After `NOT` a second
keyword is needed, and that it is there follows from the reading after the test. -/
lemma nextOperator_again (known : E.Known n) {left value : Expr} {least least' : Nat}
    (weaker : least' ≤ least)
    (run : (nextOperator E.rules least left).run E.dialect c = .accepted (some value) c₁)
    (reached : c.Reachable E.drift) :
    ∃ ws, (Form.expr E.drift).words value = (Form.expr E.drift).words left ++ ws ∧
      (∀ rest, E.Quiet exprEnd c (ws ++ rest)) ∧
      (E.Safe [.expr value] → E.Safe [.expr left] ∧ ∀ {left' c' rest},
        left'.unplaced = left.unplaced → E.Follows n c c' (ws ++ rest) →
        E.mode.left ≤ c₁.ahead.length → E.Quiet exprEnd c₁ rest →
        Accepts E.dialect (nextOperator E.again least' left') c' fun next c₁' =>
          c₁'.ahead.length < c'.ahead.length ∧ ∃ value', next = some value' ∧
            value'.unplaced = value.unplaced ∧ E.Follows n c₁ c₁' rest) := by
  obtain ⟨power, found, goes, inner⟩ := accepted_nextOperator_some run
  obtain ⟨word, ws, found₂, le, words, again⟩ := operatorAfter_again known inner found
  have some : c.ahead ≠ [] := ahead_of_kind reached fun kind => by
    rw [kind] at found
    exact absurd found (by simp [infixPower])
  have less : c₁.ahead.length < c.ahead.length := by
    have := Cursor.length_ahead some
    omega
  refine ⟨word :: ws, words, fun rest => quiet_operator found goes found₂, fun safe => ?_⟩
  refine ⟨(again safe).1, fun {left' c' rest} same follows keeps quiet => ?_⟩
  obtain ⟨value', c₁', run', next, same'⟩ := (again safe).2 same follows keeps quiet
  have found' : infixPower c'.current.kind = Option.some power := by
    obtain ⟨-, -, seen⟩ := follows.take some (Nat.le_trans keeps le)
    rcases seen with ⟨-, kind, -⟩ | ⟨-, kind, -⟩
    · rw [kind]; exact found
    · rw [kind]; exact found₂
  have goes' : operatorAt least' (c'.peek 0).kind (c'.peek 1).kind = true := by
    rw [operatorAt_eq found']
    have le := Nat.le_trans weaker (le_of_operatorAt goes found)
    cases at' : c'.view.atKeyword .NOT with
    | false => simpa using le
    | true => simpa [startsNegated_of_operatorAfter run' at'] using le
  exact ⟨Option.some value', c₁', run_nextOperator_some found' goes' run',
    follows.shorter next less keeps, value', rfl, same', next⟩

/-- An operand with some of the operators after it is read again, by a reading that takes in at
least those operators and stops where they end. -/
lemma chain_again (known : E.Known n) {first value : Expr} {least least' : Nat} {c₂ : Cursor}
    (weaker : least' ≤ least)
    (run : (operand E.rules).run E.dialect c = .accepted first c₂)
    (loops : Loops E.dialect (nextOperator E.rules least) first c₂ value c₁)
    (follows : E.Follows n c c' ((Form.expr E.drift).words value ++ rest))
    (keeps : E.mode.left ≤ c₁.ahead.length) (safe : E.Safe [.expr value])
    (quiet : E.Quiet exprEnd c₁ rest)
    (stops : operatorAt least' (Word.kindAt (E.plan c₁ rest) 0) (Word.kindAt (E.plan c₁ rest) 1) =
      false) :
    Accepts E.dialect (expression E.again least') c' fun value' c₁' =>
      E.Follows n c₁ c₁' rest ∧ value'.unplaced = value.unplaced := by
  obtain ⟨ws, words, quiets, again⟩ := loops_again (E := E) (n := n)
    (nextOperator E.again least') (Form.expr E.drift).words
    (fun value value' => value'.unplaced = value.unplaced) (fun value => E.Safe [.expr value])
    (E.Quiet exprEnd) (fun run reached => nextOperator_again known weaker run reached) loops
    (accepted_reachable run follows.reached)
  obtain ⟨safe₁, again⟩ := again safe
  rw [words, List.append_assoc] at follows
  refine (operand_again known).step run follows (Nat.le_trans keeps loops.length) safe₁
    (quiets rest quiet) fun first' c₂' _ same follows => ?_
  have enough := known.enough
  have short := follows.short
  refine (again same follows keeps quiet (by omega) fun {value' c₁'} same follows => ?_).mono
    fun value' c₁' post => ⟨post.2, post.1⟩
  rw [← follows.peek, ← follows.peek] at stops
  exact ⟨none, c₁', run_nextOperator_none stops, rfl, follows⟩

/-- **Expressions are read again.** -/
lemma expression_again (known : E.Known n) (least : Nat) :
    E.Reruns n (.expr E.drift) (E.Quiet exprEnd) (expression E.rules least)
      (expression E.again least) := by
  intro c c' value c₁ rest run follows keeps safe quiet
  obtain ⟨first, c₂, run₁, -, run⟩ := accepted_bind run
  obtain ⟨c₃, loops, stop⟩ := accepted_iterate run
  obtain ⟨stops, rfl⟩ := accepted_nextOperator_none stop
  refine chain_again known (Nat.le_refl _) run₁ loops follows keeps safe quiet ?_
  have carries := quiet .operator (by simp [exprEnd]) least
  rw [← Bool.not_eq_true] at stops ⊢
  exact fun goes => stops (carries goes)

/-! ## What stands in front -/

variable (E) in
/-- The value is written with one of these words in front. -/
def Fronted (value : Expr) (fronts : Word → Prop) : Prop :=
  ∃ word ws, (Form.expr E.drift).words value = word :: ws ∧ fronts word

/-- What is written with some word in front is so with any of more words. -/
lemma Fronted.mono {value : Expr} {fronts more : Word → Prop} (fronted : E.Fronted value fronts)
    (weaker : ∀ word, fronts word → more word) : E.Fronted value more := by
  obtain ⟨word, ws, eq, front⟩ := fronted
  exact ⟨word, ws, eq, weaker word front⟩

section

variable {rules : Rules}

/-- What stands in parentheses is written with a parenthesis in front. -/
lemma parenthesizedExpr_front :
    (parenthesizedExpr rules).Yields (E.Fronted · (· = .ofSymbol .leftParen)) := by
  refine .bind fun _ => .bind fun query => ?_
  split
  · exact .bind fun _ => .bind fun _ => .bind fun _ => .of_pure ⟨_, _, subquery_words .., rfl⟩
  · refine .bind fun _ => .bind fun comma => ?_
    split
    · exact .bind fun _ => .bind fun _ => .bind fun _ => .of_pure ⟨_, _, tuple_words .., rfl⟩
    · exact .bind fun _ => .bind fun _ => .of_pure ⟨_, _, parentheses_words .., rfl⟩

/-- `CASE` is written with its keyword in front. -/
lemma caseExpr_front : (caseExpr rules).Yields (E.Fronted · (· = .ofKeyword .CASE)) := by
  refine .bind fun _ => .bind fun operand => .bind fun branches => ?_
  split
  · exact .of_unexpected _
  · refine .bind fun otherwise => .bind fun _ => .bind fun _ => .of_pure ?_
    cases operand <;> cases otherwise <;> exact ⟨_, _, rfl, rfl⟩

/-- `CAST` is written with its keyword in front. -/
lemma castExpr_front : (castExpr rules).Yields (E.Fronted · (· = .ofKeyword .CAST)) := by
  unfold castExpr
  refine .bind fun start => .bind fun _ => .bind fun operand => .bind fun _ => ?_
  refine .bind fun type => .bind fun _ => .bind fun span => ?_
  exact .of_pure ⟨_, _, rfl, rfl⟩

/-- `RAISE` is written with its keyword in front. -/
lemma raiseExpr_front : (raiseExpr rules).Yields (E.Fronted · (· = .ofKeyword .RAISE)) := by
  refine .bind fun _ => .bind fun _ => .bind fun token => ?_
  split
  · refine .bind fun _ => .bind fun message => .bind fun _ => .bind fun _ => .of_pure ?_
    cases message <;> exact ⟨_, _, rfl, rfl⟩
  · exact .of_unexpected _

/-- A call is written with the name of its function in front. -/
lemma functionCall_front {value : Expr}
    (run : (functionCall rules).run E.dialect c = .accepted value c₁) :
    E.Fronted value fun word => ∃ name, word = .ofFunctionName name := by
  obtain ⟨parameters, order, filter, c₂, c₃, -, -, -, last⟩ := accepted_functionCall run
  rcases last with ⟨window, -, -, -, -, rfl⟩ | ⟨-, -, rfl⟩
  · exact ⟨_, _, windowCall_words .., _, rfl⟩
  · exact ⟨_, _, plainCall_words .., _, rfl⟩

/-- The name of a function is none of the three keywords, however it is written. -/
lemma functionName_front (name : String) :
    ∀ keyword ∈ [Keyword.NOT, .NULL, .EXISTS],
      (Word.ofFunctionName name).kind ≠ .keyword keyword := by
  intro keyword mem kind
  rcases Word.ofFunctionName_cases name with eq | ⟨word, -, can, eq⟩
  · rw [eq] at kind
    exact absurd kind (by simp)
  · rw [eq] at kind
    cases kind
    simp only [List.mem_cons, List.not_mem_nil, or_false] at mem
    rcases mem with rfl | rfl | rfl <;> exact absurd can (by decide)

/-- `EXISTS` is written with the keyword in front that it was read with, be it `NOT`. -/
lemma existsExpr_front {value : Expr}
    (run : (existsExpr rules).run E.dialect c = .accepted value c₁) :
    E.Fronted value fun word => word.kind = c.current.kind := by
  obtain ⟨-, shape⟩ := existsExpr_words run
  rcases shape with ⟨at_, -, ws, eq⟩ | ⟨at_, ws, eq⟩
  · exact ⟨_, _, eq, (kinds_of_atKeywords at_).1.symm⟩
  · exact ⟨_, _, eq, (kind_of_atKeyword at_).symm⟩

/-- An operand is written with `NOT`, `NULL` or `EXISTS` in front only if it was read so.

**Proof sketch.** By the parser that was entered, each of which yields an operand with its own word
in front: the one it was read with, or one that is none of the three keywords. -/
lemma operand_front {value : Expr} (run : (operand rules).run E.dialect c = .accepted value c₁) :
    E.Fronted value fun word => word.kind = c.current.kind ∨
      ∀ keyword ∈ [Keyword.NOT, .NULL, .EXISTS], word.kind ≠ .keyword keyword := by
  unfold operand at run
  rw [run_view_bind] at run
  split at run
  · exact (existsExpr_front run).mono fun word => .inl
  · split at run
    · next op least found =>
      obtain ⟨-, -, run⟩ := accepted_advance run
      obtain ⟨inner, c₂, -, -, run⟩ := accepted_bind run
      obtain ⟨rfl, rfl⟩ := accepted_return run
      exact ⟨unaryWord op, _, wordsOf_unary .., .inl (unaryOp?_kind found).1.symm⟩
    · rw [run_primary_of rfl] at run
      unfold operandOf at run
      split at run
      · next value found =>
        obtain ⟨-, -, run⟩ := accepted_advance run
        obtain ⟨rfl, rfl⟩ := accepted_pure run
        exact ⟨_, _, rfl, .inl (kind_of_literal? found).symm⟩
      · split at run
        · exact (parenthesizedExpr_front run).mono fun word eq => .inr (by subst eq; simp)
        · exact (caseExpr_front run).mono fun word eq => .inr (by subst eq; simp)
        · exact (castExpr_front run).mono fun word eq => .inr (by subst eq; simp)
        · exact (existsExpr_front run).mono fun word => .inl
        · split at run
          · exact (raiseExpr_front run).mono fun word eq => .inr (by subst eq; simp)
          · split at run
            · exact (functionCall_front run).mono fun word ⟨name, eq⟩ =>
                .inr (by subst eq; exact functionName_front name)
            · split at run
              · rcases (reference_words run).2 with ⟨name, eq, -⟩ | ⟨name, ws, eq⟩ <;>
                  exact ⟨_, _, eq, .inr (by simp)⟩
              · obtain ⟨which, kind⟩ := accepted_variableExpr run
                rw [run_variableExpr kind] at run
                cases run
                exact ⟨_, _, variableOf_words .., .inr (by simp)⟩

end

/-- Operators only add words after their operand. -/
lemma chain_words (known : E.Known n) {least : Nat} {left value : Expr}
    (loops : Loops E.dialect (nextOperator E.rules least) left c value c₁)
    (reached : c.Reachable E.drift) :
    ∃ ws, (Form.expr E.drift).words value = (Form.expr E.drift).words left ++ ws := by
  induction loops with
  | refl => exact ⟨[], by simp⟩
  | step one others ih =>
    obtain ⟨ws, eq⟩ := ih (accepted_reachable one reached)
    obtain ⟨ws₁, eq₁, -⟩ := nextOperator_again known (Nat.le_refl _) one reached
    exact ⟨ws₁ ++ ws, by rw [eq, eq₁, List.append_assoc]⟩

/-- **What stands in front of an expression stood there when it was read.** -/
lemma expression_front (known : E.Known n) {least : Nat} {value : Expr}
    (run : (expression E.rules least).run E.dialect c = .accepted value c₁)
    (reached : c.Reachable E.drift) :
    ∀ word ∈ [Keyword.NOT, .NULL, .EXISTS], ∀ rest,
      Word.kindAt ((Form.expr E.drift).words value ++ rest) 0 = .keyword word →
        c.current.kind = .keyword word := by
  intro keyword mem rest kind
  obtain ⟨first, c₂, run₁, -, run⟩ := accepted_bind run
  obtain ⟨c₃, loops, -⟩ := accepted_iterate run
  obtain ⟨ws, eq⟩ := chain_words known loops (accepted_reachable run₁ reached)
  obtain ⟨word, ws₁, eq₁, front⟩ := operand_front run₁
  rw [eq, eq₁] at kind
  rcases front with same | never
  · exact same.symm.trans kind
  · exact absurd kind (never keyword mem)

end Rereading

end SqlTree
