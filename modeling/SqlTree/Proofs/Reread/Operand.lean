import SqlTree.Proofs.Operands
import SqlTree.Proofs.Reread.Call

set_option autoImplicit false

/-!
# Reading operands again

## Main results

* `SqlTree.Rereading.primary_again` — operands without operators are read again.
* `SqlTree.Rereading.operand_again` — operands, perhaps after operators, are read again.
-/

namespace SqlTree

namespace Rereading

open SqlTree.Parser SqlTree.Grammar

variable {E : Rereading} {n : Nat} {c c' c₁ c₁' : Cursor} {rest : List Word}

/-! ## Operands in parentheses -/

/-- The words of a subquery are those of the query, in parentheses. -/
lemma subquery_words (query : Query) (span : Span) :
    (Form.expr E.drift).words (.subquery query span) =
      (Form.query E.drift).parens.words query := by
  simp [Form.expr, Expr.pieces, Form.query, Form.parens, Render.parens]

/-- The words of a row are those of its expressions, in parentheses. -/
lemma tuple_words (items : List Expr) (span : Span) :
    (Form.expr E.drift).words (.tuple items span) =
      (Form.expr E.drift).commas.parens.words items := by
  simp [Form.expr, Expr.pieces, Form.parens, Render.parens,
    Form.wordsOf_exprs]

/-- The words of an expression in parentheses are its own, in parentheses. -/
lemma parentheses_words (inner : Expr) (span : Span) :
    (Form.expr E.drift).words (.parentheses inner span) =
      (Form.expr E.drift).parens.words inner := by
  simp [Form.expr, Expr.pieces, Form.parens, Render.parens]

/-- A query may end at a parenthesis. -/
lemma queryEnds_of_close (close : c.view.atSymbol .rightParen = true) :
    E.Ends queryEnd c (.ofSymbol .rightParen :: rest) :=
  ⟨.front rfl, done_of_symbol close rfl⟩

/-- Whatever stands in parentheses is read again.

**Proof sketch.** By what was read: a query, a row or one expression. The parenthesis is next again.
A query starts like one again, and an expression does not (`Known.sound'`), so the same parser is
entered. A comma after the first expression is next again, and where none was, the closing
parenthesis is next again. -/
lemma parenthesizedExpr_again (known : E.Known n) :
    E.Reruns n (.expr E.drift) (fun _ _ => True) (parenthesizedExpr E.rules)
      (parenthesizedExpr E.again) := by
  intro c c' value c₁ rest run follows keeps safe _
  unfold parenthesizedExpr at run ⊢
  obtain ⟨at₁, le₁, run⟩ := accepted_expectSymbol run
  rw [run_sees_bind] at run
  split at run
  · obtain ⟨query, c₂, run₂, le₂, run⟩ := accepted_bind run
    obtain ⟨at₃, le₃, run⟩ := accepted_expectSymbol run
    obtain ⟨rfl, rfl⟩ := accepted_return run
    rw [subquery_words] at follows
    simp only [Form.parens, List.cons_append, List.append_assoc, List.nil_append] at follows
    refine follows.expectSymbol at₁ (Nat.le_trans keeps le₁) fun _ follows _ => accepts_sees ?_
    obtain ⟨query', c₂', run₂', follows, same⟩ := known.query run₂ follows
      (Nat.le_trans keeps le₂) (safe_singleton.mp safe).2 (queryEnds_of_close at₃)
    rw [if_pos (known.sound'.query run₂')]
    refine accepts_of_run run₂' ?_
    exact follows.expectSymbol at₃ keeps fun _ follows _ =>
      .of_return ⟨follows, congrArg (Expr.subquery · .none) same⟩
  · obtain ⟨first, c₂, run₂, le₂, run⟩ := accepted_bind run
    rw [run_eatSymbol_bind] at run
    split at run
    · next at₃ =>
      rw [if_pos rfl] at run
      have le₃ := accepted_length run
      obtain ⟨others, c₄, run₄, le₄, run⟩ := accepted_bind run
      obtain ⟨at₅, le₅, run⟩ := accepted_expectSymbol run
      obtain ⟨rfl, rfl⟩ := accepted_return run
      rw [tuple_words] at follows
      have follows : E.Follows n c c' (.ofSymbol .leftParen :: ((Form.expr E.drift).words first ++
          .ofSymbol .comma :: ((Form.expr E.drift).commas.words others ++
            .ofSymbol .rightParen :: rest))) := by
        simpa [Form.parens, Form.commas_cons _ _ (commaSeparated_ne_nil _ run₄)] using follows
      have below : E.Safe (Node.each Node.expr (first :: others)) := (safe_singleton.mp safe).2
      rw [each_eq, List.flatMap_cons, safe_append] at below
      refine follows.expectSymbol at₁ (Nat.le_trans keeps le₁) fun _ follows _ => accepts_sees ?_
      obtain ⟨first', c₂', run₂', follows, same⟩ := known.expr run₂ follows
        (Nat.le_trans keeps le₂) below.1 (.front rfl)
      rw [if_neg (known.sound'.expr run₂').not_query]
      refine accepts_of_run run₂' ?_
      refine follows.eatSymbol at₃ (Nat.le_trans keeps le₃) fun follows _ => ?_
      rw [if_pos rfl]
      refine known.exprs.step run₄ follows (Nat.le_trans keeps le₄) below.2 (.front rfl)
        fun others' c₄' _ same' follows => ?_
      have same : first'.unplaced = first.unplaced := same
      have same' : others'.map Expr.unplaced = others.map Expr.unplaced := same'
      exact follows.expectSymbol at₅ keeps fun _ follows _ =>
        .of_return ⟨follows, by simp [Expr.unplaced, same, same']⟩
    · next notComma =>
      rw [if_neg Bool.false_ne_true] at run
      obtain ⟨at₃, le₃, run⟩ := accepted_expectSymbol run
      obtain ⟨rfl, rfl⟩ := accepted_return run
      rw [parentheses_words] at follows
      simp only [Form.parens, List.cons_append, List.append_assoc, List.nil_append] at follows
      refine follows.expectSymbol at₁ (Nat.le_trans keeps le₁) fun _ follows _ => accepts_sees ?_
      obtain ⟨first', c₂', run₂', follows, same⟩ := known.expr run₂ follows
        (Nat.le_trans keeps le₂) (safe_singleton.mp safe).2 (.front rfl)
      rw [if_neg (known.sound'.expr run₂').not_query]
      refine accepts_of_run run₂' ?_
      refine skipSymbol (not_otherSymbol (follows.symbol at₃ keeps).1 (by decide)) ?_
      rw [if_neg Bool.false_ne_true]
      exact follows.expectSymbol at₃ keeps fun _ follows _ =>
        .of_return ⟨follows, congrArg (Expr.parentheses · .none) same⟩

/-! ## Choices -/

/-- A branch of a choice is read again. -/
lemma whenClause_again (known : E.Known n) :
    E.Reruns n (.whenClause E.drift) (E.Quiet exprEnd) (whenClause E.rules)
      (whenClause E.again) := by
  intro c c' value c₁ rest run follows keeps safe quiet
  unfold whenClause at run ⊢
  obtain ⟨at₁, le₁, run⟩ := accepted_expectKeyword run
  obtain ⟨condition, c₂, run₂, le₂, run⟩ := accepted_bind run
  obtain ⟨at₃, le₃, run⟩ := accepted_expectKeyword run
  obtain ⟨result, c₄, run₄, le₄, run⟩ := accepted_bind run
  obtain ⟨rfl, rfl⟩ := accepted_return run
  have follows : E.Follows n c c' (.ofKeyword .WHEN :: ((Form.expr E.drift).words condition ++
      .ofKeyword .THEN :: ((Form.expr E.drift).words result ++ rest))) := by
    simpa [Form.whenClause, WhenClause.pieces, Form.expr] using follows
  have below := safe_cons.mp (safe_singleton.mp safe).2
  refine follows.expectKeyword at₁ (Nat.le_trans keeps le₁) fun _ follows _ => ?_
  refine known.expr.step run₂ follows (Nat.le_trans keeps le₂) below.1 (.front rfl)
    fun condition' c₂' _ (same : condition'.unplaced = condition.unplaced) follows => ?_
  refine follows.expectKeyword at₃ (Nat.le_trans keeps le₃) fun _ follows _ => ?_
  refine known.expr.step run₄ follows keeps below.2 quiet
    fun result' c₄' _ (same' : result'.unplaced = result.unplaced) follows => ?_
  exact .of_return ⟨follows, by simp [Form.whenClause, WhenClause.unplaced, same, same']⟩

/-- The words of a branch start with `WHEN`. -/
lemma whenClause_front (branch : WhenClause) :
    ∃ ws, (Form.whenClause E.drift).words branch = .ofKeyword .WHEN :: ws := by
  obtain ⟨condition, result, span⟩ := branch
  exact ⟨_, by simp [Form.whenClause, WhenClause.pieces]; rfl⟩

/-- What is read while a test of a keyword passes is read again, part by part.

**Proof sketch.** By the lemma about repetitions (`Reruns.many`). In a turn that read a part the
keyword was next, with which the words of the part start, so it is next again, and the part is read
again. In the last turn the keyword was not next, and it is not next again, as what follows is quiet
about it. -/
lemma manyKeyword_again {α : Type} {form : Form α} {word : Keyword} {p p' : Parser α}
    {ends : Cursor → List Word → Prop} {fuel fuel' : Nat} (enough : n ≤ fuel')
    (part : E.Reruns n form ends p p')
    (front : ∀ value, ∃ ws, form.words value = .ofKeyword word :: ws)
    (takes : ∀ {c value c₁}, p.run E.dialect c = .accepted value c₁ →
      c₁.ahead.length ≤ c.advance.ahead.length)
    (takes' : ∀ {c value c₁}, p'.run E.dialect c = .accepted value c₁ →
      c₁.ahead.length ≤ c.advance.ahead.length)
    (first : ∀ c rest, c.view.atKeyword word = true → ends c (.ofKeyword word :: rest)) :
    E.Reruns n form.flat (fun c rest => ends c rest ∧ E.Quiet [.keyword word] c rest)
      (many fuel (whenever (·.atKeyword word) p))
      (many fuel' (whenever (·.atKeyword word) p')) := by
  intro c c' value c₁ rest run follows keeps safe ends₁
  have again := Reruns.many (E := E) (n := n) form
    (fun c rest => ends c rest ∧ (E.Quiet [.keyword word] c rest ∨ c.view.atKeyword word = true))
    (whenever (·.atKeyword word) p') enough ?_ ?_ run follows.reached safe
  · exact again.2 follows keeps ⟨ends₁.1, .inl ends₁.2⟩
  · intro c value c₂ run reached
    unfold whenever at run
    rw [run_sees_bind] at run
    split at run
    · next at_ =>
      obtain ⟨value, c₃, inner, -, last⟩ := accepted_bind run
      obtain ⟨eq, rfl⟩ := accepted_pure last
      obtain rfl := Option.some.inj eq
      refine ⟨fun rest => ?_, fun follows keeps safe ends => ?_⟩
      · obtain ⟨ws, eq⟩ := front value
        rw [eq]
        exact ⟨first _ _ at_, .inr at_⟩
      · obtain ⟨at', shorter⟩ :=
          follows.front_keyword (front value) at_ (Nat.le_trans keeps (takes inner))
        obtain ⟨value', c₃', inner', last, same⟩ := part inner follows keeps safe ends.1
        refine accepts_sees ?_
        rw [if_pos at']
        exact accepts_of_run inner' (.of_pure
          ⟨Nat.lt_of_le_of_lt (takes' inner') shorter, value', rfl, same, last⟩)
    · exact absurd (accepted_pure run).1 (by simp)
  · intro c c₂ run
    unfold whenever at run
    rw [run_sees_bind] at run
    split at run
    · obtain ⟨value, c₃, -, -, last⟩ := accepted_bind run
      exact absurd (accepted_pure last).1 (by simp)
    · next not =>
      obtain ⟨-, rfl⟩ := accepted_pure run
      refine ⟨rfl, fun follows keeps ends => accepts_sees ?_⟩
      rcases ends.2 with quiet | at_
      · rw [if_neg (quiet.not_keyword follows (by simp) not)]
        exact .of_pure ⟨rfl, follows⟩
      · exact absurd at_ not

/-- A branch takes its keyword. -/
lemma whenClause_takes {rules : Rules} {value : WhenClause}
    (run : (whenClause rules).run E.dialect c = .accepted value c₁) :
    c₁.ahead.length ≤ c.advance.ahead.length := by
  unfold whenClause at run
  exact (accepted_expectKeyword run).2.1

/-- The words of a choice are those of its parts, between its keywords. -/
lemma cases_words (operand : Option Expr) (branches : List WhenClause) (otherwise : Option Expr)
    (span : Span) :
    (Form.expr E.drift).words (.cases operand branches otherwise span) ++ rest =
      .ofKeyword .CASE :: ((Form.expr E.drift).maybe.words operand ++
        ((Form.whenClause E.drift).flat.words branches ++
          (((Form.expr E.drift).after [.ofKeyword .ELSE]).maybe.words otherwise ++
            .ofKeyword .END :: rest))) := by
  have list : Render.wordsOf E.drift (branches.flatMap fun branch => .blank :: branch.pieces) =
      (Form.whenClause E.drift).flat.words branches := by
    induction branches <;> simp_all [Form.flat, Form.whenClause]
  cases operand <;> cases otherwise <;>
    simp [Form.expr, Expr.pieces, Form.maybe, Form.after, list]

/-- The branches of a choice are read again. -/
lemma whenClauses_again (known : E.Known n) :
    E.Reruns n (Form.whenClause E.drift).flat
      (fun c rest => E.Quiet exprEnd c rest ∧ E.Quiet [.keyword .WHEN] c rest)
      (many E.rules.limit (whenever (·.atKeyword .WHEN) (whenClause E.rules)))
      (many E.again.limit (whenever (·.atKeyword .WHEN) (whenClause E.again))) :=
  manyKeyword_again known.enough (whenClause_again known) whenClause_front whenClause_takes
    whenClause_takes fun _ _ _ => .front rfl

/-- What a choice is made by is read again, before the first branch.

**Proof sketch.** The words after the operand start with `WHEN`, as there is a branch. If an operand
was read it is read again, and `WHEN` is not next again since no expression starts with it. If none
was read, `WHEN` was next and is next again. -/
lemma caseOperand_again (known : E.Known n) {operand : Option Expr} {branches : List WhenClause}
    {more : List Word}
    (run : (whenever (!·.atKeyword .WHEN) E.rules.expr).run E.dialect c = .accepted operand c₁)
    (follows : E.Follows n c c' ((Form.expr E.drift).maybe.words operand ++
      ((Form.whenClause E.drift).flat.words branches ++ more)))
    (keeps : E.mode.left < c₁.ahead.length)
    (safe : E.Safe ((Form.expr E.drift).maybe.nodes operand)) (some : branches ≠ []) :
    Accepts E.dialect (whenever (!·.atKeyword .WHEN) E.again.expr) c' fun operand' c₁' =>
      E.Follows n c₁ c₁' ((Form.whenClause E.drift).flat.words branches ++ more) ∧
        (Form.expr E.drift).maybe.bare operand' = (Form.expr E.drift).maybe.bare operand := by
  obtain ⟨ws, eq⟩ : ∃ ws, (Form.whenClause E.drift).flat.words branches ++ more =
      .ofKeyword .WHEN :: ws := by
    obtain ⟨first, others, rfl⟩ := List.exists_cons_of_ne_nil some
    obtain ⟨ws, eq⟩ := whenClause_front (E := E) first
    exact ⟨ws ++ (Form.whenClause E.drift).flat.words others ++ more, by simp [Form.flat, eq]⟩
  rw [eq] at follows ⊢
  unfold whenever at run ⊢
  rw [run_sees_bind] at run
  refine accepts_sees ?_
  split at run
  · obtain ⟨value, c₂, inner, -, last⟩ := accepted_bind run
    obtain ⟨rfl, rfl⟩ := accepted_pure last
    obtain ⟨value', c₂', inner', follows, same⟩ :=
      known.expr inner follows (Nat.le_of_lt keeps) safe (.front rfl)
    have not' : ¬ c'.view.atKeyword .WHEN = true :=
      (known.sound'.expr inner').not_keyword rfl
    rw [if_pos (by simpa using not')]
    exact accepts_of_run inner' (.of_pure ⟨follows, congrArg Option.some same⟩)
  · next at_ =>
    obtain ⟨rfl, rfl⟩ := accepted_pure run
    have follows : E.Follows n c c' (.ofKeyword .WHEN :: ws) := follows
    have at_ : c.view.atKeyword .WHEN = true := by simpa using at_
    have at' := (follows.keyword at_
      (by simp only [Cursor.advance_ahead, List.length_tail]; omega)).1
    rw [if_neg (by simpa using at')]
    exact .of_pure ⟨follows, rfl⟩

/-- **A choice is read again.**

**Proof sketch.** The run is taken apart, part by part, and so are the words (`cases_words`). The
operand is read again before the first branch (`caseOperand_again`), then the branches up to `ELSE`
or `END` (`whenClauses_again`), of which there is one again, and then the last result and the
closing keyword. -/
lemma caseExpr_again (known : E.Known n) :
    E.Reruns n (.expr E.drift) (fun _ _ => True) (caseExpr E.rules) (caseExpr E.again) := by
  intro c c' value c₁ rest run follows keeps safe _
  unfold caseExpr at run ⊢
  obtain ⟨at₁, le₁, run⟩ := accepted_expectKeyword run
  obtain ⟨operand, c₂, run₂, le₂, run⟩ := accepted_bind run
  obtain ⟨branches, c₃, run₃, le₃, run⟩ := accepted_bind run
  split at run
  · exact absurd run not_accepted_unexpected
  · next some =>
    obtain ⟨otherwise, c₄, run₄, le₄, run⟩ := accepted_bind run
    obtain ⟨at₅, le₅, run⟩ := accepted_expectKeyword run
    obtain ⟨rfl, rfl⟩ := accepted_return run
    rw [cases_words] at follows
    have below : E.Safe (Node.maybe Node.expr operand ++ Node.each Node.whenClause branches ++
      Node.maybe Node.expr otherwise) := (safe_singleton.mp safe).2
    rw [safe_append, safe_append, maybe_eq, maybe_eq, each_eq] at below
    refine follows.expectKeyword at₁ (Nat.le_trans keeps le₁) fun _ follows _ => ?_
    have le₂₄ := Nat.le_trans (accepted_length run₄) (accepted_length run₃)
    have some₄ := length_of_atKeyword at₅ (accepted_reachable run₄ (accepted_reachable run₃
      (accepted_reachable run₂ follows.reached)))
    obtain ⟨operand', c₂', run₂', follows, same₂⟩ := caseOperand_again known run₂ follows
      (by omega) below.1.1 (by simpa using some)
    refine accepts_of_run run₂' ?_
    refine (whenClauses_again known).step run₃ follows (Nat.le_trans keeps le₃) below.1.2
      ⟨Skips.quiet (.afterKeyword _ _ _) run₄ rfl (.front rfl),
        Skips.quiet (.afterKeyword _ _ _) run₄ rfl (.front rfl)⟩
      fun branches' c₃' _ same₃ follows => ?_
    have same₃ : branches'.map WhenClause.unplaced = branches.map WhenClause.unplaced := same₃
    have some' : ¬ branches'.isEmpty = true := by
      rw [← List.isEmpty_map (f := WhenClause.unplaced), same₃, List.isEmpty_map]
      exact some
    rw [if_neg some']
    have otherwise_again : E.Reruns n ((Form.expr E.drift).after [.ofKeyword .ELSE]).maybe
        (E.Quiet (.keyword .ELSE :: exprEnd)) (afterKeyword .ELSE E.rules.expr)
        (afterKeyword .ELSE E.again.expr) :=
      known.expr.afterKeyword fun _ _ quiet => ⟨quiet.mono rfl, quiet.mono rfl⟩
    refine otherwise_again.step run₄ follows (Nat.le_trans keeps le₄) below.2
      (.at_keyword at₅ rfl) fun otherwise' c₄' _ same₄ follows => ?_
    have same₂ : operand'.map Expr.unplaced = operand.map Expr.unplaced := same₂
    have same₄ : otherwise'.map Expr.unplaced = otherwise.map Expr.unplaced := same₄
    exact follows.expectKeyword at₅ keeps fun _ follows _ =>
      .of_return ⟨follows, by simp [Expr.unplaced, same₂, same₃, same₄]⟩

/-! ## Conversions, tests for rows and errors -/

/-- A type may end at a parenthesis. -/
lemma endsType_of_close (close : c.view.atSymbol .rightParen = true) :
    E.EndsType c (.ofSymbol .rightParen :: rest) := by
  have kinds : Word.kindAt (E.plan c (.ofSymbol .rightParen :: rest)) 0 = .symbol .rightParen ∨
      Word.kindAt (E.plan c (.ofSymbol .rightParen :: rest)) 0 = .endOfInput := by
    cases mode : E.mode with
    | written => exact .inl (by rw [plan_written mode]; rfl)
    | copy left =>
      rw [kindAt_plan_copy mode]
      split
      · exact .inl (kind_of_atSymbol close)
      · exact .inr rfl
  constructor <;> rcases kinds with kind | kind <;> rw [kind] <;> rfl

/-- A conversion is read again. -/
lemma castExpr_again (known : E.Known n) :
    E.Reruns n (.expr E.drift) (fun _ _ => True) (castExpr E.rules) (castExpr E.again) := by
  intro c c' value c₁ rest run follows keeps safe _
  unfold castExpr at run ⊢
  obtain ⟨at₁, le₁, run⟩ := accepted_expectKeyword run
  obtain ⟨at₂, le₂, run⟩ := accepted_expectSymbol run
  obtain ⟨operand, c₂, run₂, le₃, run⟩ := accepted_bind run
  obtain ⟨at₃, le₄, run⟩ := accepted_expectKeyword run
  obtain ⟨type, c₃, run₃, le₅, run⟩ := accepted_bind run
  obtain ⟨at₄, le₆, run⟩ := accepted_expectSymbol run
  obtain ⟨rfl, rfl⟩ := accepted_return run
  have follows : E.Follows n c c' (.ofKeyword .CAST :: .ofSymbol .leftParen ::
      ((Form.expr E.drift).words operand ++ .ofKeyword .AS ::
        ((Form.typeName E.drift).words type ++ .ofSymbol .rightParen :: rest))) := by
    simpa [Form.expr, Form.typeName, Expr.pieces, Render.parens] using follows
  have below := safe_cons.mp (safe_singleton.mp safe).2
  refine follows.expectKeyword at₁ (Nat.le_trans keeps le₁) fun _ follows _ => ?_
  refine follows.expectSymbol at₂ (Nat.le_trans keeps le₂) fun _ follows _ => ?_
  refine known.expr.step run₂ follows (Nat.le_trans keeps le₃) below.1 (.front rfl)
    fun operand' c₂' _ (same : operand'.unplaced = operand.unplaced) follows => ?_
  refine follows.expectKeyword at₃ (Nat.le_trans keeps le₄) fun _ follows _ => ?_
  refine known.type.step run₃ follows (Nat.le_trans keeps le₅) below.2 (endsType_of_close at₄)
    fun type' c₃' _ (same' : type'.unplaced = type.unplaced) follows => ?_
  exact follows.expectSymbol at₄ keeps fun _ follows _ =>
    .of_return ⟨follows, by simp [Expr.unplaced, same, same']⟩

/-- A test whether a query has rows is read again. -/
lemma existsExpr_again (known : E.Known n) :
    E.Reruns n (.expr E.drift) (fun _ _ => True) (existsExpr E.rules) (existsExpr E.again) := by
  intro c c' value c₁ rest run follows keeps safe _
  unfold existsExpr at run ⊢
  rw [run_here_bind] at run
  obtain ⟨negated, c₂, run₁, le₁, run⟩ := accepted_bind run
  obtain ⟨at₂, le₂, run⟩ := accepted_expectKeyword run
  obtain ⟨query, c₃, run₃, le₃, run⟩ := accepted_bind run
  obtain ⟨rfl, rfl⟩ := accepted_return run
  have follows : E.Follows n c c' ((Form.flag [.ofKeyword .NOT]).words negated ++
      .ofKeyword .EXISTS :: ((Form.query E.drift).parens.words query ++ rest)) := by
    simpa [Form.expr, Form.query, Form.parens, Form.flag, Expr.pieces, Render.parens,
      wordsOf_wordsIf] using follows
  refine Accepts.congr ?_ (run_here_bind ..)
  refine (eatKeyword_again .NOT).plain rfl run₁ follows (Nat.le_trans keeps le₁) safe_nil
    (.front rfl) fun c₂' _ follows => ?_
  refine follows.expectKeyword at₂ (Nat.le_trans keeps le₂) fun _ follows _ => ?_
  refine (known.query.parenthesized fun _ _ close _ => queryEnds_of_close close).step run₃ follows
    keeps (safe_singleton.mp safe).2 trivial fun query' c₃' _ same follows => ?_
  exact .of_return ⟨follows, congrArg (Expr.existsRow · negated .none) same⟩

/-- The action of `RAISE` is told by its keyword. -/
lemma raiseAction?_keyword {kind : TokenKind} {action : RaiseAction}
    (found : raiseAction? kind = some action) : kind = .keyword action.keyword := by
  unfold raiseAction? at found
  split at found <;> simp_all <;> subst found <;> rfl

/-- The keyword of an action is looked up as the action. -/
lemma raiseAction?_of_keyword (action : RaiseAction) :
    raiseAction? (.keyword action.keyword) = some action := by
  cases action <;> rfl

/-- The message of an error is read again. -/
lemma raiseMessage_again (known : E.Known n) (action : RaiseAction) :
    E.Reruns n ((Form.expr E.drift).after [.ofSymbol .comma]).maybe (E.Quiet exprEnd)
      (whenever (fun _ => action ≠ .ignore) do let _ ← expectSymbol .comma; E.rules.expr)
      (whenever (fun _ => action ≠ .ignore) do let _ ← expectSymbol .comma; E.again.expr) := by
  intro c c' value c₁ rest run follows keeps safe quiet
  unfold whenever at run ⊢
  rw [run_sees_bind] at run
  refine accepts_sees ?_
  split at run
  · next ne =>
    obtain ⟨value, c₂, inner, -, last⟩ := accepted_bind run
    obtain ⟨rfl, rfl⟩ := accepted_pure last
    obtain ⟨at_, le, inner⟩ := accepted_expectSymbol inner
    have follows : E.Follows n c c'
        (.ofSymbol .comma :: ((Form.expr E.drift).words value ++ rest)) := follows
    obtain ⟨at', follows, -⟩ := follows.symbol at_ (Nat.le_trans keeps le)
    obtain ⟨value', c₁', inner', follows, same⟩ := known.expr inner follows keeps safe quiet
    rw [if_pos ne]
    refine ⟨some value', c₁', ?_, follows, congrArg some same⟩
    rw [run_bind, run_expectSymbol_bind at', inner']
    rfl
  · next eq =>
    obtain ⟨rfl, rfl⟩ := accepted_pure run
    rw [if_neg eq]
    exact .of_pure ⟨follows, rfl⟩

/-- An error is read again.

**Proof sketch.** The keyword, the parenthesis and the action are next again, the message is read
again after its comma (`raiseMessage_again`), and the closing parenthesis is next again. -/
lemma raiseExpr_again (known : E.Known n) :
    E.Reruns n (.expr E.drift) (fun _ _ => True) (raiseExpr E.rules) (raiseExpr E.again) := by
  intro c c' value c₁ rest run follows keeps safe _
  unfold raiseExpr at run ⊢
  obtain ⟨at₁, le₁, run⟩ := accepted_expectKeyword run
  obtain ⟨at₂, le₂, run⟩ := accepted_expectSymbol run
  rw [run_current_bind] at run
  split at run
  · next action found =>
    obtain ⟨-, le₃, run⟩ := accepted_advance run
    obtain ⟨message, c₃, run₃, le₄, run⟩ := accepted_bind run
    obtain ⟨at₄, le₅, run⟩ := accepted_expectSymbol run
    obtain ⟨rfl, rfl⟩ := accepted_return run
    have follows : E.Follows n c c' (.ofKeyword .RAISE :: .ofSymbol .leftParen ::
        .ofKeyword action.keyword ::
          (((Form.expr E.drift).after [.ofSymbol .comma]).maybe.words message ++
            .ofSymbol .rightParen :: rest)) := by
      cases message <;>
        simpa [Form.expr, Form.maybe, Form.after, Expr.pieces, Render.parens] using follows
    have below : E.Safe (Node.maybe Node.expr message) := (safe_singleton.mp safe).2
    rw [maybe_eq] at below
    refine follows.expectKeyword at₁ (Nat.le_trans keeps le₁) fun _ follows _ => ?_
    refine follows.expectSymbol at₂ (Nat.le_trans keeps le₂) fun _ follows _ => ?_
    have kind := raiseAction?_keyword found
    obtain ⟨kind', follows, -⟩ := follows.same kind (by simp [kind]) (Nat.le_trans keeps le₃)
    refine Accepts.congr ?_ (run_current_bind ..)
    rw [kind', Word.ofKeyword_kind, raiseAction?_of_keyword]
    refine accepts_advance (by rw [kind']; rfl) ?_
    refine (raiseMessage_again known action).step run₃ follows (Nat.le_trans keeps le₄) below
      (.front rfl) fun message' c₃' _ same follows => ?_
    have same : message'.map Expr.unplaced = message.map Expr.unplaced := same
    exact follows.expectSymbol at₄ keeps fun _ follows _ =>
      .of_return ⟨follows, by simp [Expr.unplaced, same]⟩
  · exact absurd run not_accepted_unexpected

/-! ## Names and variables -/

/-- A column is read again.

**Proof sketch.** By how many names were read. A name is read again, a dot that was next is next
again, and where none was, none is next again, as what follows is quiet about dots. -/
lemma reference_again :
    E.Reruns n (.expr E.drift) (E.Quiet [.symbol .dot]) reference reference := by
  intro c c' value c₁ rest run follows keeps safe quiet
  unfold reference at run ⊢
  rw [run_here_bind] at run
  obtain ⟨first, c₂, run₁, le₁, run⟩ := accepted_bind run
  refine Accepts.congr ?_ (run_here_bind ..)
  rw [run_eatSymbol_bind] at run
  split at run
  · next at₂ =>
    rw [if_pos rfl] at run
    have le₂ := accepted_length run
    obtain ⟨second, c₃, run₃, le₃, run⟩ := accepted_bind run
    rw [run_eatSymbol_bind] at run
    split at run
    · next at₄ =>
      rw [if_pos rfl] at run
      have le₄ := accepted_length run
      obtain ⟨third, c₅, run₅, le₅, run⟩ := accepted_bind run
      obtain ⟨rfl, rfl⟩ := accepted_return run
      have follows : E.Follows n c c' (.ofName first :: .ofSymbol .dot :: .ofName second ::
        .ofSymbol .dot :: .ofName third :: rest) := follows
      refine identifier_again.plain rfl run₁ follows (Nat.le_trans keeps le₁) safe_nil trivial
        fun c₂' _ follows => ?_
      refine follows.eatSymbol at₂ (Nat.le_trans keeps le₂) fun follows _ => ?_
      refine identifier_again.plain rfl run₃ follows (Nat.le_trans keeps le₃) safe_nil trivial
        fun c₃' _ follows => ?_
      refine follows.eatSymbol at₄ (Nat.le_trans keeps le₄) fun follows _ => ?_
      refine identifier_again.plain rfl run₅ follows keeps safe_nil trivial fun c₅' _ follows => ?_
      exact .of_return ⟨follows, rfl⟩
    · next notDot =>
      obtain ⟨rfl, rfl⟩ := accepted_return run
      have follows : E.Follows n c c' (.ofName first :: .ofSymbol .dot :: .ofName second ::
        rest) := follows
      refine identifier_again.plain rfl run₁ follows (Nat.le_trans keeps le₁) safe_nil trivial
        fun c₂' _ follows => ?_
      refine follows.eatSymbol at₂ (Nat.le_trans keeps le₂) fun follows _ => ?_
      refine identifier_again.plain rfl run₃ follows keeps safe_nil trivial fun c₃' _ follows => ?_
      exact skipSymbol (quiet.not_symbol follows rfl notDot) (.of_return ⟨follows, rfl⟩)
  · next notDot =>
    obtain ⟨rfl, rfl⟩ := accepted_return run
    have follows : E.Follows n c c' (.ofName first :: rest) := follows
    refine identifier_again.plain rfl run₁ follows keeps safe_nil trivial fun c₂' _ follows => ?_
    exact skipSymbol (quiet.not_symbol follows rfl notDot) (.of_return ⟨follows, rfl⟩)

/-- The words of a variable are the variable. -/
lemma variableOf_words (drift : Bool) (which : Variable) (span : Span) :
    (Form.expr E.drift).words (variableOf drift which span) = [.ofVariable which] := by
  unfold variableOf
  split <;> rfl

/-- A variable without its place is the same wherever it stands. -/
lemma variableOf_unplaced (drift : Bool) (which : Variable) (span span' : Span) :
    (variableOf drift which span').unplaced = (variableOf drift which span).unplaced := by
  unfold variableOf
  split <;> simp [Expr.unplaced]

/-- A variable or a placeholder is read again. -/
lemma variableExpr_again :
    E.Reruns n (.expr E.drift) (fun _ _ => True) variableExpr variableExpr := by
  intro c c' value c₁ rest run follows keeps _ _
  obtain ⟨which, kind⟩ := accepted_variableExpr run
  rw [run_variableExpr kind] at run
  cases run
  rw [variableOf_words] at follows
  have follows : E.Follows n c c' (.ofVariable which :: rest) := follows
  obtain ⟨kind', follows, -⟩ := follows.same kind (by simp [kind]) keeps
  exact ⟨_, _, run_variableExpr kind', follows, variableOf_unplaced ..⟩

/-! ## Operands without operators -/

/-- A literal that was next is next again. -/
lemma literal_again {value : Literal} (found : literal? c.current.kind = some value)
    (follows : E.Follows n c c' (.ofLiteral value :: rest))
    (keeps : E.mode.left ≤ c.advance.ahead.length) :
    c'.current.kind = value.kind ∧ E.Follows n c.advance c'.advance rest := by
  have kind := kind_of_literal? found
  obtain ⟨kind', follows, -⟩ := follows.same kind (kind ▸ value.kind_ne rfl) keeps
  exact ⟨kind', follows⟩

/-- The name of a called function is none of the tokens that other operands start with. -/
lemma isPlainOperand_of_atCall (at_ : atCall c.view = true) :
    isPlainOperand c.current.kind = true := by
  have names : c.current.kind.namesFunction = true := (atCall_iff.mp at_).2
  generalize c.current.kind = kind at names
  cases kind with
  | identifier => rfl
  | keyword => exact names
  | _ => cases names

/-- A name before a parenthesis is the name of a function. -/
lemma atCall_of_atIdentifier (at_ : c.view.atIdentifier = true)
    (open_ : (c.peek 1).isSymbol .leftParen = true) : atCall c.view = true := by
  exact atCall_iff.mpr ⟨open_, TokenKind.namesFunction_of_isIdentifierLike at_⟩

/-- A column is a single name, or a point follows its first name. -/
lemma reference_words {value : Expr} (run : reference.run E.dialect c = .accepted value c₁) :
    c.view.atIdentifier = true ∧
      ((∃ name, (Form.expr E.drift).words value = [.ofName name] ∧ c₁ = c.advance) ∨
        ∃ name ws, (Form.expr E.drift).words value = .ofName name :: .ofSymbol .dot :: ws) := by
  unfold reference at run
  rw [run_here_bind] at run
  obtain ⟨first, c₂, run₁, -, run⟩ := accepted_bind run
  obtain ⟨at_, -, rfl⟩ := accepted_identifier run₁
  refine ⟨at_, ?_⟩
  rw [run_eatSymbol_bind] at run
  split at run
  · obtain ⟨second, c₃, -, -, run⟩ := accepted_bind run
    rw [run_eatSymbol_bind] at run
    split at run
    · obtain ⟨third, c₅, -, -, run⟩ := accepted_bind run
      obtain ⟨rfl, -⟩ := accepted_return run
      exact .inr ⟨_, _, rfl⟩
    · obtain ⟨rfl, -⟩ := accepted_return run
      exact .inr ⟨_, _, rfl⟩
  · obtain ⟨rfl, rfl⟩ := accepted_return run
    exact .inl ⟨_, rfl, rfl⟩

/-- A column is read again as a column: no parenthesis follows its name.

**Proof sketch.** After the first name of a column no parenthesis stood in the source. In a copy the
same token follows. In a written text another name follows after a dot, or the column is written as
one name, and then what follows is quiet about parentheses. -/
lemma reference_not_call {value : Expr} (run : reference.run E.dialect c = .accepted value c₁)
    (follows : E.Follows n c c' ((Form.expr E.drift).words value ++ rest))
    (quiet : E.Quiet [.symbol .leftParen] c₁ rest) (notCall : ¬ atCall c.view = true) :
    ¬ atCall c'.view = true := by
  intro call'
  obtain ⟨at_, shape⟩ := reference_words run
  have not : (c.peek 1).kind ≠ .symbol .leftParen := fun kind => by
    refine notCall (atCall_of_atIdentifier at_ ?_)
    rw [Token.isSymbol_eq, kind]
    rfl
  have open' : (c'.peek 1).isSymbol .leftParen = true := (Bool.and_eq_true _ _ ▸ call').1
  rw [Token.isSymbol_eq, TokenKind.isSymbol_iff, follows.peek] at open'
  cases mode : E.mode with
  | copy left =>
    rw [kindAt_plan_copy mode] at open'
    split at open'
    · exact not open'
    · exact absurd open' (by simp)
  | written =>
    rw [plan_written mode] at open'
    rcases shape with ⟨name, eq, rfl⟩ | ⟨name, ws, eq⟩
    · rw [eq] at open'
      have carries := quiet (.symbol .leftParen) (by simp)
      rw [plan_written mode] at carries
      simp only [List.cons_append, List.nil_append, Word.kindAt_cons_succ] at open'
      refine not ?_
      rw [← Cursor.peek_advance]
      simpa [Starter.Carries, Starter.passes, Starter.first, Starter.second, open',
        TokenKind.isSymbol_iff] using carries
    · rw [eq] at open'
      exact absurd open' (by simp)

/-- `EXISTS` is written with the keywords in front that it was read with. -/
lemma existsExpr_words {rules : Rules} {value : Expr}
    (run : (existsExpr rules).run E.dialect c = .accepted value c₁) :
    c₁.ahead.length ≤ c.advance.ahead.length ∧
      ((c.view.atKeywords .NOT .EXISTS = true ∧ c₁.ahead.length ≤ c.advance.advance.ahead.length ∧
        ∃ ws, (Form.expr E.drift).words value = .ofKeyword .NOT :: .ofKeyword .EXISTS :: ws) ∨
      (c.view.atKeyword .EXISTS = true ∧
        ∃ ws, (Form.expr E.drift).words value = .ofKeyword .EXISTS :: ws)) := by
  unfold existsExpr at run
  rw [run_here_bind, run_eatKeyword_bind] at run
  split at run
  · next at_ =>
    obtain ⟨at₂, le, run⟩ := accepted_expectKeyword run
    obtain ⟨query, c₂, -, -, run⟩ := accepted_bind run
    obtain ⟨rfl, rfl⟩ := accepted_return run
    refine ⟨Nat.le_trans le (by simp), .inl ⟨?_, le, _, rfl⟩⟩
    refine atKeywords_of_kinds (kind_of_atKeyword at_) ?_
    rw [← Cursor.peek_advance]
    exact kind_of_atKeyword at₂
  · obtain ⟨at₂, le, run⟩ := accepted_expectKeyword run
    obtain ⟨query, c₂, -, -, run⟩ := accepted_bind run
    obtain ⟨rfl, rfl⟩ := accepted_return run
    exact ⟨le, .inr ⟨at₂, _, rfl⟩⟩

/-- **Operands without operators are read again.**

**Proof sketch.** By the parser that was entered. Each kind of operand is read again by its own
lemma, so what is left to show is that the same parser is entered again, that is, that the tests
before it fail again. A literal, a parenthesis and a keyword are next again. `RAISE` and its
parenthesis are next again. A call is next again, and is not `RAISE`. A column is no call again
(`reference_not_call`). And a variable is a token of its own kind, at which all these tests fail. -/
lemma primary_again (known : E.Known n) :
    E.Reruns n (.expr E.drift) (E.Quiet exprEnd) (primary E.rules) (primary E.again) := by
  intro c c' value c₁ rest run follows keeps safe quiet
  rw [run_primary_of rfl] at run
  unfold operandOf at run
  split at run
  · next value found =>
    obtain ⟨-, le, run⟩ := accepted_advance run
    obtain ⟨rfl, rfl⟩ := accepted_pure run
    obtain ⟨kind', follows⟩ := literal_again found follows keeps
    refine Accepts.congr ?_ (run_primary_of kind')
    unfold operandOf
    rw [literal?_kind]
    exact accepts_advance (kind' ▸ value.kind_isMalformed) (.of_pure ⟨follows, rfl⟩)
  · next notLiteral =>
    split at run
    · obtain ⟨value', c₁', run', post⟩ :=
        parenthesizedExpr_again known run follows keeps safe trivial
      exact ⟨value', c₁', (run_primary_of (kind_of_atSymbol (accepted_expectSymbol run').1)).trans
        run', post⟩
    · obtain ⟨value', c₁', run', post⟩ := caseExpr_again known run follows keeps safe trivial
      exact ⟨value', c₁', (run_primary_of
        (kind_of_atKeyword (accepted_expectKeyword run').1)).trans run', post⟩
    · obtain ⟨value', c₁', run', post⟩ := castExpr_again known run follows keeps safe trivial
      exact ⟨value', c₁', (run_primary_of
        (kind_of_atKeyword (accepted_expectKeyword run').1)).trans run', post⟩
    · next kind =>
      obtain ⟨le, shape⟩ := existsExpr_words run
      obtain ⟨at_, ws, eq⟩ : c.view.atKeyword .EXISTS = true ∧
          ∃ ws, (Form.expr E.drift).words value = .ofKeyword .EXISTS :: ws := by
        rcases shape with ⟨at_, -⟩ | shape
        · exact absurd ((kinds_of_atKeywords at_).1.symm.trans kind) (by simp)
        · exact shape
      obtain ⟨at', -⟩ := follows.front_keyword ⟨ws, eq⟩ at_ (Nat.le_trans keeps le)
      obtain ⟨value', c₁', run', post⟩ := existsExpr_again known run follows keeps safe trivial
      exact ⟨value', c₁', (run_primary_of (kind_of_atKeyword at')).trans run', post⟩
    · split at run
      · -- an error
        obtain ⟨value', c₁', run', post⟩ := raiseExpr_again known run follows keeps safe trivial
        obtain ⟨at', -, inner'⟩ := accepted_expectKeyword run'
        have open' := (accepted_expectSymbol inner').1
        refine ⟨value', c₁', ?_, post⟩
        rw [run_primary_of (kind_of_atKeyword at'), operandOf_plain rfl, if_pos]
        · exact run'
        · rw [Bool.and_eq_true]
          exact ⟨at', by rw [atSymbol_advance] at open'; exact open'⟩
      · next notRaise =>
        split at run
        · next call =>
          -- a function call
          have notRaise : c.view.atKeyword .RAISE = false := by
            rw [Bool.and_eq_true] at notRaise
            by_contra raise
            exact notRaise ⟨by simpa using raise, (Bool.and_eq_true _ _ ▸ call).1⟩
          obtain ⟨call', notRaise', value', c₁', run', post⟩ :=
            functionCall_again known call run follows keeps safe quiet
          refine ⟨value', c₁', ?_, post⟩
          rw [run_primary_of rfl, operandOf_plain (isPlainOperand_of_atCall call'), if_neg,
            if_pos call']
          · exact run'
          · simp [notRaise' notRaise]
        · next notCall =>
          split at run
          · -- a column
            have notCall' := reference_not_call run follows (quiet.mono rfl) notCall
            obtain ⟨value', c₁', run', post⟩ :=
              reference_again run follows keeps safe (quiet.mono rfl)
            have name' := (reference_words run').1
            refine ⟨value', c₁', ?_, post⟩
            rw [run_primary_of rfl, operandOf_plain (isPlainOperand_of_atIdentifier name'), if_neg,
              if_neg notCall', if_pos name']
            · exact run'
            · rw [Bool.and_eq_true]
              exact fun raises => notCall' (atCall_of_atIdentifier name' raises.2)
          · -- a variable
            obtain ⟨value', c₁', run', post⟩ :=
              variableExpr_again run follows keeps safe trivial
            obtain ⟨which, kind'⟩ := accepted_variableExpr run'
            refine ⟨value', c₁', ?_, post⟩
            have plain : isPlainOperand c'.current.kind = true := by rw [kind']; rfl
            rw [run_primary_of rfl, operandOf_plain plain, if_neg, if_neg, if_neg]
            · exact run'
            · intro name'
              change c'.current.kind.isIdentifierLike = true at name'
              rw [kind'] at name'
              exact absurd name' Bool.false_ne_true
            · intro call'
              have names : c'.current.kind.namesFunction = true := (atCall_iff.mp call').2
              rw [kind'] at names
              exact absurd names Bool.false_ne_true
            · rw [Bool.and_eq_true]
              intro raises
              exact absurd ((kind_of_atKeyword raises.1).symm.trans kind') (by simp)

/-! ## Operators before operands -/

/-- The word of an operator before an operand. -/
def unaryWord : UnaryOp → Word
  | .neg => .ofSymbol .minus
  | .plus => .ofSymbol .plus
  | .not => .ofKeyword .NOT
  | .bitNot => .ofSymbol .bitNot

/-- The pieces of a prefix operator have its word in front. -/
lemma wordsOf_unary (drift : Bool) (op : UnaryOp) (pieces : List Render.Piece) :
    Render.wordsOf drift (op.pieces pieces) = unaryWord op :: Render.wordsOf drift pieces := by
  cases op with
  | neg => simp only [UnaryOp.pieces]; split <;> rfl
  | _ => rfl

/-- A prefix operator is told by the kind of its token. -/
lemma unaryOp?_kind {kind : TokenKind} {op : UnaryOp} {least : Nat}
    (found : unaryOp? kind = some (op, least)) :
    kind = (unaryWord op).kind ∧ unaryOp? (unaryWord op).kind = some (op, least) := by
  unfold unaryOp? at found
  split at found <;> simp only [Option.some.injEq, Prod.mk.injEq, reduceCtorEq] at found <;>
    obtain ⟨rfl, rfl⟩ := found <;> exact ⟨rfl, rfl⟩

/-- No operator stands before an operand that is read without one.

**Proof sketch.** A prefix operator is neither a literal nor a parenthesis nor one of the keywords.
So the operand would have been a call, a column or a variable, which do not start with an operator
either. -/
lemma unaryOp?_of_primary {rules : Rules} {value : Expr}
    (run : (primary rules).run E.dialect c = .accepted value c₁) :
    unaryOp? c.current.kind = none := by
  cases found : unaryOp? c.current.kind with
  | none => rfl
  | some op =>
    obtain ⟨op, least⟩ := op
    have kind := (unaryOp?_kind found).1
    have plain : (if c.view.atKeyword .RAISE && c.view.second.isSymbol .leftParen then
          raiseExpr rules
        else if atCall c.view then functionCall rules
        else if c.view.atIdentifier then reference
        else variableExpr : Parser Expr).run E.dialect c = .accepted value c₁ := by
      rw [run_primary_of kind] at run
      cases op <;> exact run
    rw [if_neg, if_neg, if_neg] at plain
    · obtain ⟨which, kind'⟩ := accepted_variableExpr plain
      rw [kind'] at kind
      cases op <;> exact absurd kind (by simp [unaryWord])
    · intro name
      change c.current.kind.isIdentifierLike = true at name
      rw [kind] at name
      cases op <;> exact absurd name (by decide)
    · intro call
      have plain' := isPlainOperand_of_atCall call
      rw [kind] at plain'
      cases op <;> exact absurd plain' (by decide)
    · rw [Bool.and_eq_true]
      intro raises
      have kind' := kind_of_atKeyword raises.1
      rw [kind] at kind'
      cases op <;> exact absurd kind' (by simp [unaryWord])

/-- In the second source an expression starts with `NOT`, `NULL` or `EXISTS` only if it does so in
the first one. -/
lemma front_again (known : E.Known n) {least : Nat} {value : Expr} {word : Keyword}
    (run : (E.rules.operators least).run E.dialect c = .accepted value c₁)
    (follows : E.Follows n c c' ((Form.expr E.drift).words value ++ rest))
    (reached : c.Reachable E.drift) (mem : word ∈ [Keyword.NOT, .NULL, .EXISTS])
    (kind' : (c'.peek 0).kind = .keyword word) : c.current.kind = .keyword word := by
  rw [follows.peek] at kind'
  cases mode : E.mode with
  | written =>
    rw [plan_written mode] at kind'
    exact known.front run reached word mem rest kind'
  | copy left =>
    rw [kindAt_plan_copy mode] at kind'
    split at kind'
    · exact kind'
    · exact absurd kind' (by simp)

/-- **Operands are read again.**

**Proof sketch.** By what was next. `NOT EXISTS` is next again. A prefix operator is next again, and
if it is `NOT` then `EXISTS` does not follow it again, since the operand after it would have to be
written with it in front (`front_again`). Without a prefix operator none is next again
(`unaryOp?_of_primary`), and the operand is read again (`primary_again`). -/
lemma operand_again (known : E.Known n) :
    E.Reruns n (.expr E.drift) (E.Quiet exprEnd) (operand E.rules) (operand E.again) := by
  intro c c' value c₁ rest run follows keeps safe quiet
  unfold operand at run ⊢
  rw [run_view_bind] at run
  refine Accepts.congr ?_ (run_view_bind ..)
  split at run
  · next at_ =>
    obtain ⟨-, shape⟩ := existsExpr_words run
    rcases shape with ⟨-, le, ws, eq⟩ | ⟨contra, -⟩
    · have front : E.Follows n c c' (.ofKeyword .NOT :: .ofKeyword .EXISTS :: (ws ++ rest)) := by
        rw [eq] at follows
        exact follows
      rw [if_pos (front.keywords at_ (Nat.le_trans keeps le)).1]
      exact existsExpr_again known run follows keeps safe trivial
    · exact absurd ((kinds_of_atKeywords at_).1.symm.trans (kind_of_atKeyword contra)) (by simp)
  · next notExists =>
    split at run
    · next op least found =>
      obtain ⟨-, le₁, run⟩ := accepted_advance run
      obtain ⟨inner, c₂, run₂, le₂, run⟩ := accepted_bind run
      obtain ⟨rfl, rfl⟩ := accepted_return run
      obtain ⟨kind, found'⟩ := unaryOp?_kind found
      have kind : c.current.kind = (unaryWord op).kind := kind
      have follows : E.Follows n c c'
          (unaryWord op :: ((Form.expr E.drift).words inner ++ rest)) := by
        simpa [Form.expr, Expr.pieces, wordsOf_unary] using follows
      have some : c.current.kind ≠ .endOfInput := by
        rw [kind]
        cases op <;> simp [unaryWord]
      obtain ⟨kind', next, -⟩ := follows.same kind some (Nat.le_trans keeps le₁)
      have notExists' : ¬ c'.view.atKeywords .NOT .EXISTS = true := by
        intro at'
        obtain ⟨not', exists'⟩ := kinds_of_atKeywords at'
        have not' : c'.current.kind = .keyword .NOT := not'
        obtain rfl : op = .not := by
          rw [kind'] at not'
          cases op <;> simp_all [unaryWord]
        rw [← Cursor.peek_advance, ] at exists'
        have front := front_again known run₂ next follows.reached.advance (by simp) exists'
        refine notExists (atKeywords_of_kinds kind ?_)
        rw [← Cursor.peek_advance]
        exact front
      rw [if_neg notExists', show unaryOp? c'.view.current.kind = _ from
        (congrArg unaryOp? kind').trans found']
      refine accepts_advance (by rw [kind']; cases op <;> rfl) ?_
      refine (known.operators least).step run₂ next keeps (safe_singleton.mp safe).2 quiet
        fun inner' c₂' _ (same : inner'.unplaced = inner.unplaced) follows => ?_
      exact .of_return ⟨follows, by simp [Expr.unplaced, same]⟩
    · next notUnary =>
      obtain ⟨value', c₁', run', post⟩ := primary_again known run follows keeps safe quiet
      have notUnary' := unaryOp?_of_primary run'
      rw [if_neg, show unaryOp? c'.view.current.kind = none from notUnary']
      · exact ⟨value', c₁', run', post⟩
      · intro at'
        have kind' : c'.current.kind = _ := (kinds_of_atKeywords at').1
        rw [kind'] at notUnary'
        exact absurd notUnary' (by decide)

end Rereading

end SqlTree
