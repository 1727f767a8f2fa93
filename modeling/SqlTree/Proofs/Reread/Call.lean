import SqlTree.Proofs.Reread.Window

set_option autoImplicit false

/-!
# Reading function calls again

## Main results

* `SqlTree.Rereading.callParameters_again` — what a function is called with is read again.
* `SqlTree.Rereading.functionCall_again` — function calls are read again.
-/

namespace SqlTree

open Render

/-! ## How calls are written -/

namespace Word

/-- The name of a function is written as a keyword that can name one, or as any other name. -/
lemma ofFunctionName_cases (name : String) :
    ofFunctionName name = ofName name ∨
      ∃ word, Keyword.ofText? name = some word ∧ word.canNameFunction = true ∧
        ofFunctionName name = ⟨.keyword word, name, none⟩ := by
  unfold ofFunctionName
  cases found : Keyword.ofText? name with
  | none => exact .inl rfl
  | some word =>
    cases names : word.canNameFunction with
    | false => exact .inl (by simp [names])
    | true => exact .inr ⟨word, rfl, names, by simp [names]⟩

end Word

/-- The filter of an aggregate function. -/
def Form.filter (drift : Bool) : Form Expr :=
  ((Form.expr drift).after [.ofKeyword .WHERE]).parens.after [.ofKeyword .FILTER]

namespace Rereading

open SqlTree.Parser SqlTree.Grammar

variable {E : Rereading} {n : Nat} {c c' c₁ c₁' : Cursor} {rest : List Word}

/-! ## Arguments -/

/-- A list of expressions starts where an expression does. -/
lemma Known.exprs_start (known : E.Known n) {exprs : List Expr}
    (run : E.again.exprs.run E.dialect c = .accepted exprs c₁) : c.StartsExpr := by
  obtain ⟨first, c₂, run, -, -⟩ := accepted_bind run
  exact known.sound'.expr run

/-- The words of the arguments of a call: `DISTINCT`, the arguments and their ordering. -/
lemma parameters_words (distinct : Bool) (arguments : List Expr) (order : Option OrderBy) :
    (Form.parameters E.drift).words (.list distinct arguments, order) =
      (Form.flag [.ofKeyword .DISTINCT]).words distinct ++
        ((Form.expr E.drift).commas.words arguments ++
          (Form.orderBy E.drift).maybe.words order) := by
  cases order <;> cases distinct <;>
    simp [Form.parameters, Parameters.pieces, wordsOf_wordsIf, Form.flag, Form.maybe, Form.orderBy,
      Form.wordsOf_exprs]

/-- A keyword was taken exactly if it was next. -/
lemma accepted_eatKeyword {word : Keyword} {found : Bool}
    (run : (eatKeyword word).run E.dialect c = .accepted found c₁) :
    (found = true ∧ c.view.atKeyword word = true ∧ c₁ = c.advance) ∨
      (found = false ∧ ¬ c.view.atKeyword word = true ∧ c₁ = c) := by
  rw [← run_bind_pure, run_eatKeyword_bind] at run
  split at run
  · next at_ =>
    obtain ⟨rfl, rfl⟩ := accepted_pure run
    exact .inl ⟨rfl, at_, rfl⟩
  · next not =>
    obtain ⟨rfl, rfl⟩ := accepted_pure run
    exact .inr ⟨rfl, not, rfl⟩

/-- What a function is called with is read again.

**Proof sketch.** That the arguments are read as such a second time, and neither as none nor as an
asterisk, is known from their second reading, which starts with an expression. -/
lemma callParameters_again (known : E.Known n) :
    E.Reruns n (.parameters E.drift) E.Closes (callParameters E.rules)
      (callParameters E.again) := by
  intro c c' value c₁ rest run follows keeps safe closes
  unfold callParameters at run ⊢
  rw [run_sees_bind] at run
  refine accepts_sees ?_
  split at run
  · next at_ =>
    obtain ⟨rfl, rfl⟩ := accepted_pure run
    have follows : E.Follows n c c' rest := follows
    rw [if_pos (closes.at_again follows)]
    exact .of_pure ⟨follows, rfl⟩
  · rw [run_eatSymbol_bind] at run
    split at run
    · next at_ =>
      obtain ⟨rfl, rfl⟩ := accepted_pure run
      have follows : E.Follows n c c' (.ofSymbol .star :: rest) := follows
      rw [if_neg (not_otherSymbol (follows.symbol at_ keeps).1 (by decide))]
      exact follows.eatSymbol at_ keeps fun follows _ => .of_pure ⟨follows, rfl⟩
    · rw [if_neg Bool.false_ne_true] at run
      obtain ⟨distinct, c₂, run₁, le₁, run⟩ := accepted_bind run
      obtain ⟨arguments, c₃, run₂, le₂, run⟩ := accepted_bind run
      obtain ⟨order, c₄, run₃, le₃, run⟩ := accepted_bind run
      obtain ⟨rfl, rfl⟩ := accepted_pure run
      rw [parameters_words, List.append_assoc, List.append_assoc] at follows
      have safe := safe_append.mp safe
      rw [each_eq, maybe_eq] at safe
      have read : ∀ {c₂'}, E.Follows n c₂ c₂' ((Form.expr E.drift).commas.words arguments ++
          ((Form.orderBy E.drift).maybe.words order ++ rest)) →
          c₂'.StartsExpr ∧ Accepts E.dialect (do
            let arguments ← E.again.exprs
            return (Parameters.list distinct arguments, ← optionalOrderBy E.again)) c₂'
            fun value' c₁' => E.Follows n c₄ c₁' rest ∧
              (Form.parameters E.drift).bare value' =
                (Form.parameters E.drift).bare (.list distinct arguments, order) := by
        intro c₂' follows
        obtain ⟨arguments', c₃', run₂', follows, same⟩ := known.exprs run₂ follows
          (Nat.le_trans keeps le₂) safe.1
          (optionalOrderBy_skips.quiet run₃ rfl (closes.quiet rfl))
        refine ⟨known.exprs_start run₂', accepts_of_run run₂' ?_⟩
        refine (optionalOrderBy_again known).step run₃ follows keeps safe.2
          ⟨closes.quiet rfl, closes.done⟩ fun order' c₄' _ same' follows => ?_
        have same : arguments'.map Expr.unplaced = arguments.map Expr.unplaced := same
        have same' : order'.map OrderBy.unplaced = order.map OrderBy.unplaced := same'
        exact .of_pure ⟨follows, by simp [Form.parameters, Parameters.unplaced, same, same']⟩
      rcases accepted_eatKeyword run₁ with ⟨rfl, at_, rfl⟩ | ⟨rfl, not, rfl⟩
      · obtain ⟨at', next, -⟩ := follows.keyword at_ (Nat.le_trans keeps le₁)
        rw [if_neg (not_atSymbol at' _)]
        refine skipSymbol (not_atSymbol at' _) ?_
        rw [if_neg Bool.false_ne_true]
        exact takeKeyword at' (read next).2
      · obtain ⟨starts, accepts⟩ := read follows
        rw [if_neg (starts.not_symbol rfl)]
        refine skipSymbol (starts.not_symbol rfl) ?_
        rw [if_neg Bool.false_ne_true]
        exact skipKeyword (starts.not_keyword rfl) accepts

/-! ## Filters -/

/-- A filter is told by `FILTER` with a parenthesis after it. -/
lemma filter_passes (cursor : Cursor) :
    (cursor.view.atKeyword .FILTER && cursor.view.second.isSymbol .leftParen) =
      Starter.filter.passes (cursor.peek 0).kind (cursor.peek 1).kind := by
  change ((cursor.peek 0).isKeyword .FILTER && (cursor.peek 1).isSymbol .leftParen) = _
  rw [Token.isKeyword_eq, Token.isSymbol_eq]
  rfl

/-- The condition of a filter is read again. -/
lemma filterCondition_again (known : E.Known n) :
    E.Reruns n ((Form.expr E.drift).after [.ofKeyword .WHERE]).parens (fun _ _ => True)
      (parenthesized do let _ ← expectKeyword .WHERE; E.rules.expr)
      (parenthesized do let _ ← expectKeyword .WHERE; E.again.expr) := by
  have condition : E.Reruns n ((Form.expr E.drift).after [.ofKeyword .WHERE]) (E.Quiet exprEnd)
      (do let _ ← expectKeyword .WHERE; E.rules.expr)
      (do let _ ← expectKeyword .WHERE; E.again.expr) := by
    intro c c' value c₁ rest run follows keeps safe quiet
    obtain ⟨at_, le, run⟩ := accepted_expectKeyword run
    refine follows.expectKeyword at_ (Nat.le_trans keeps le) fun _ follows _ => ?_
    exact known.expr run follows keeps safe quiet
  exact condition.parenthesized fun _ _ _ _ => .front rfl

/-- A filter that may be missing is read again.

**Proof sketch.** If `FILTER` was next with a parenthesis after it, both are next again, the feature
is demanded again, and the condition is read again. If not, what follows is quiet about filters, so
none starts there again. -/
lemma optionalFilter_again (known : E.Known n) :
    E.Reruns n (Form.filter E.drift).maybe (E.Quiet [.filter]) (optionalFilter E.rules)
      (optionalFilter E.again) := by
  intro c c' value c₁ rest run follows keeps safe quiet
  unfold optionalFilter whenever at run ⊢
  rw [run_sees_bind, filter_passes] at run
  refine accepts_sees ?_
  rw [filter_passes]
  split at run
  · next at_ =>
    obtain ⟨filter, c₂, inner, le, run⟩ := accepted_bind run
    obtain ⟨rfl, rfl⟩ := accepted_pure run
    rw [run_here_bind] at inner
    obtain ⟨has, inner⟩ := accepted_require inner
    obtain ⟨-, le₁, inner⟩ := accepted_advance inner
    have follows : E.Follows n c c' (.ofKeyword .FILTER ::
      (((Form.expr E.drift).after [.ofKeyword .WHERE]).parens.words filter ++ rest)) := follows
    have at₁ : c.view.atKeyword .FILTER = true := by
      rw [← filter_passes, Bool.and_eq_true] at at_
      exact at_.1
    obtain ⟨at₁', next, -⟩ := follows.keyword at₁ (Nat.le_trans keeps le₁)
    obtain ⟨filter', c₂', inner', last, same⟩ :=
      filterCondition_again known inner next keeps safe trivial
    have at₂' : (c'.peek 1).isSymbol .leftParen = true := by
      rw [← Cursor.peek_advance]
      exact (accepted_expectSymbol inner').1
    have at' : Starter.filter.passes (c'.peek 0).kind (c'.peek 1).kind = true := by
      rw [← filter_passes, Bool.and_eq_true]
      exact ⟨at₁', at₂'⟩
    rw [if_pos at']
    have same : filter'.unplaced = filter.unplaced := same
    refine ⟨some filter', c₂', ?_, last, by simp [Form.maybe, Form.filter, Form.after, Form.parens,
      same]⟩
    rw [run_bind, run_here_bind, run_bind]
    simp only [require, Parser.run, has, if_true]
    rw [run_advance_bind (sound_of_atKeyword at₁'), inner']
    rfl
  · next not =>
    obtain ⟨rfl, rfl⟩ := accepted_pure run
    rw [Bool.not_eq_true] at not
    rw [if_neg (by rw [quiet.not_passes .filter follows (by simp) (by simp) not]; simp)]
    exact .of_pure ⟨follows, rfl⟩

/-! ## Windows of functions -/

/-- The window of a function is read again.

**Proof sketch.** By whether a parenthesis was next. A definition starts with one, which is next
again, and it is read again (`windowDefinition_again`). A name is read again, and is no
parenthesis. -/
lemma functionWindow_again (known : E.Known n) :
    E.Reruns n (.overClause E.drift) (fun _ _ => True) (functionWindow E.rules)
      (functionWindow E.again) := by
  intro c c' value c₁ rest run follows keeps safe _
  unfold functionWindow at run ⊢
  rw [run_sees_bind] at run
  refine accepts_sees ?_
  split at run
  · obtain ⟨window, c₂, inner, -, run⟩ := accepted_bind run
    obtain ⟨rfl, rfl⟩ := accepted_pure run
    obtain ⟨window', c₂', inner', follows, same⟩ :=
      windowDefinition_again known inner follows keeps safe trivial
    rw [if_pos (accepted_expectSymbol inner').1]
    exact accepts_of_run inner' (.of_pure ⟨follows, congrArg Over.window same⟩)
  · rw [run_here_bind] at run
    obtain ⟨name, c₂, inner, -, run⟩ := accepted_bind run
    obtain ⟨rfl, rfl⟩ := accepted_return run
    obtain ⟨name', c₂', inner', follows, same⟩ :=
      identifier_again inner follows keeps safe_nil trivial
    have at' := (accepted_identifier inner').1
    rw [if_neg (by
      intro open_
      change c'.current.kind.isIdentifierLike = true at at'
      rw [kind_of_atSymbol open_] at at'
      exact absurd at' Bool.false_ne_true)]
    refine Accepts.congr ?_ (run_here_bind ..)
    refine accepts_of_run inner' (.of_return ⟨follows, ?_⟩)
    obtain rfl : name' = name := same
    rfl

/-! ## Calls -/

/-- A window of a call is told by `OVER` with a parenthesis or a name after it. -/
lemma over_passes (cursor : Cursor) :
    atOver cursor.view = Starter.overClause.passes (cursor.peek 0).kind (cursor.peek 1).kind := by
  change ((cursor.peek 0).isKeyword .OVER &&
    ((cursor.peek 1).isSymbol .leftParen || (cursor.peek 1).kind.isIdentifierLike)) = _
  rw [Token.isKeyword_eq, Token.isSymbol_eq]
  rfl

/-- The words of a call are its name and its arguments in parentheses. -/
lemma call_words (name : String) (parameters : Parameters) (span : Span) :
    (Form.expr E.drift).words (.call name parameters span) =
      .ofFunctionName name :: ((Form.parameters E.drift).parens.words (parameters, none) ++
        (Form.filter E.drift).maybe.words none) := by
  simp [Form.expr, Expr.pieces, Form.parameters, Form.parens, Form.maybe, Render.parens]

/-- The words of an aggregate are its name, its arguments with their ordering, and its filter. -/
lemma aggregate_words (name : String) (parameters : Parameters) (order : Option OrderBy)
    (filter : Option Expr) (span : Span) :
    (Form.expr E.drift).words (.aggregate name parameters order filter span) =
      .ofFunctionName name :: ((Form.parameters E.drift).parens.words (parameters, order) ++
        (Form.filter E.drift).maybe.words filter) := by
  cases order <;> cases filter <;>
    simp [Form.expr, Expr.pieces, Form.parameters, Form.parens, Form.maybe, Render.parens,
      Form.filter, Form.after]

/-- The words of a call of a window function are its name, its arguments, its filter and its
window. -/
lemma windowCall_words (name : String) (parameters : Parameters) (filter : Option Expr)
    (window : Over) (span : Span) :
    (Form.expr E.drift).words (.windowCall name parameters filter window span) =
      .ofFunctionName name :: ((Form.parameters E.drift).parens.words (parameters, none) ++
        ((Form.filter E.drift).maybe.words filter ++
          .ofKeyword .OVER :: (Form.overClause E.drift).words window)) := by
  cases filter <;>
    simp [Form.expr, Expr.pieces, Form.parameters, Form.parens, Form.maybe, Render.parens,
      Form.filter, Form.after, Form.overClause]

/-- The second reading takes the name of a function where the first one did.

**Proof sketch.** By the mode. In a copy the next token has the same kind and text. In a written
text the name is quoted, or it is a keyword that can name a function (`Word.ofFunctionName_cases`).
In each case the token has the same name and names a function, and it is `RAISE` only if the source
has that keyword there. -/
lemma Follows.functionName
    (follows : E.Follows n c c' (.ofFunctionName (nameOf c.current) :: rest))
    (at_ : atCall c.view = true) (keeps : E.mode.left ≤ c.advance.ahead.length)
    (keepsName : E.mode = .written → Keyword.ofText? (nameOf c.current) ≠ some .RAISE) :
    nameOf c'.current = nameOf c.current ∧ E.Follows n c.advance c'.advance rest ∧
      c'.advance.ahead.length < c'.ahead.length ∧
      (c'.advance.view.atSymbol .leftParen = true → atCall c'.view = true ∧
        (c.view.atKeyword .RAISE = false → c'.view.atKeyword .RAISE = false)) := by
  have names : c.current.kind.namesFunction = true := (atCall_iff.mp at_).2
  have some : c.ahead ≠ [] := ahead_of_kind follows.reached fun kind => by
    rw [kind] at names
    exact absurd names Bool.false_ne_true
  obtain ⟨next, shorter, seen⟩ := follows.take some keeps
  have call : c'.current.kind.namesFunction = true → c'.advance.view.atSymbol .leftParen = true →
      atCall c'.view = true := by
    intro names' open_
    change (c'.advance.peek 0).isSymbol .leftParen = true at open_
    rw [Cursor.peek_advance] at open_
    exact atCall_iff.mpr ⟨open_, names'⟩
  rcases seen with ⟨-, kind, lexeme⟩ | ⟨written, kind, lexeme⟩
  · refine ⟨by unfold nameOf; rw [kind, lexeme], next, shorter, fun open_ => ⟨call ?_ open_, ?_⟩⟩
    · rw [kind]
      exact names
    · intro not
      change c'.current.isKeyword .RAISE = false
      change c.current.isKeyword .RAISE = false at not
      rwa [Token.isKeyword_eq, kind, ← Token.isKeyword_eq]
  · rcases Word.ofFunctionName_cases (nameOf c.current) with eq | ⟨word, found, can, eq⟩
    · rw [eq] at kind lexeme
      refine ⟨by rw [nameOf, kind]; rfl, next, shorter, fun open_ => ⟨call ?_ open_, fun _ => ?_⟩⟩
      · rw [kind]
        rfl
      · change c'.current.isKeyword .RAISE = false
        rw [Token.isKeyword_eq, kind]
        rfl
    · rw [eq] at kind lexeme
      refine ⟨by rw [nameOf, kind]; exact lexeme, next, shorter,
        fun open_ => ⟨call ?_ open_, fun _ => ?_⟩⟩
      · rw [kind]
        exact can
      · change c'.current.isKeyword .RAISE = false
        rw [Token.isKeyword_eq, kind]
        have := keepsName written
        rw [found] at this
        simpa using this

/-- The parts of a function call.

**Proof sketch.** The run is taken apart step by step: the name, the arguments in parentheses, the
filter and, if `OVER` starts a window, the window, which demands its feature and rejects an ordering
of the arguments. -/
lemma accepted_functionCall {rules : Rules} {value : Expr}
    (run : (functionCall rules).run E.dialect c = .accepted value c₁) :
    ∃ parameters order filter c₂ c₃, c₁.ahead.length ≤ c₃.ahead.length ∧
      (parenthesized (callParameters rules)).run E.dialect c.advance =
        .accepted (parameters, order) c₂ ∧
      (optionalFilter rules).run E.dialect c₂ = .accepted filter c₃ ∧
      ((∃ window, atOver c₃.view = true ∧ E.dialect.supports .windowFunctions = true ∧
          order = none ∧ (functionWindow rules).run E.dialect c₃.advance = .accepted window c₁ ∧
          value = .windowCall (nameOf c.current) parameters filter window
            (c₁.spanFrom c.current.span)) ∨
        (¬ atOver c₃.view = true ∧ c₁ = c₃ ∧
          value = if order.isSome || filter.isSome then
              .aggregate (nameOf c.current) parameters order filter (c₁.spanFrom c.current.span)
            else .call (nameOf c.current) parameters (c₁.spanFrom c.current.span))) := by
  unfold functionCall at run
  obtain ⟨-, -, run⟩ := accepted_advance run
  obtain ⟨⟨parameters, order⟩, c₂, run₁, -, run⟩ := accepted_bind run
  obtain ⟨filter, c₃, run₂, le, run⟩ := accepted_bind run
  refine ⟨parameters, order, filter, c₂, c₃, le, run₁, run₂, ?_⟩
  rw [run_sees_bind] at run
  split at run
  · next isOver =>
    rw [run_here_bind] at run
    obtain ⟨has, run⟩ := accepted_require run
    cases order with
    | some order => exact absurd run not_accepted_invalid
    | none =>
      obtain ⟨-, -, run⟩ := accepted_advance run
      obtain ⟨window, c₄, run₃, -, run⟩ := accepted_bind run
      obtain ⟨rfl, rfl⟩ := accepted_return run
      exact .inl ⟨window, isOver, has, rfl, run₃, rfl⟩
  · next notOver =>
    refine .inr ⟨notOver, ?_⟩
    split at run
    · next either =>
      obtain ⟨rfl, rfl⟩ := accepted_return run
      exact ⟨rfl, by rw [if_pos either]⟩
    · next neither =>
      obtain ⟨rfl, rfl⟩ := accepted_return run
      exact ⟨rfl, by rw [if_neg neither]⟩

/-- The words of a call that is no call of a window function. -/
lemma plainCall_words (name : String) (parameters : Parameters) (order : Option OrderBy)
    (filter : Option Expr) (span : Span) :
    (Form.expr E.drift).words (if order.isSome || filter.isSome then
        .aggregate name parameters order filter span else .call name parameters span) =
      .ofFunctionName name :: ((Form.parameters E.drift).parens.words (parameters, order) ++
        (Form.filter E.drift).maybe.words filter) := by
  split
  · exact aggregate_words ..
  · cases order <;> cases filter <;> first | exact call_words .. | simp_all

/-- The nodes directly below a call that is no call of a window function. -/
lemma plainCall_nodes (name : String) (parameters : Parameters) (order : Option OrderBy)
    (filter : Option Expr) (span : Span) :
    Node.ofExpr (if order.isSome || filter.isSome then
        .aggregate name parameters order filter span else .call name parameters span) =
      Node.each Node.expr parameters.arguments ++ Node.maybe Node.orderBy order ++
        Node.maybe Node.expr filter := by
  cases order <;> cases filter <;> simp [Node.ofExpr, Node.maybe]

/-- The arguments of a call in their parentheses are read again. -/
lemma callParameters_parens_again (known : E.Known n) :
    E.Reruns n (Form.parameters E.drift).parens (fun _ _ => True)
      (parenthesized (callParameters E.rules)) (parenthesized (callParameters E.again)) :=
  (callParameters_again known).parenthesized fun _ _ close keeps => ⟨close, keeps, _, rfl⟩

/-- A call does not start with a malformed token. -/
lemma sound_of_atCall (at_ : atCall c.view = true) : c.current.kind.isMalformed = false := by
  have names : c.current.kind.namesFunction = true := (atCall_iff.mp at_).2
  generalize c.current.kind = kind at names
  cases kind with
  | malformed => cases names
  | _ => rfl

/-- A function call after its filter. -/
def callEnd (rules : Rules) (name : String) (parameters : Parameters) (order : Option OrderBy)
    (filter : Option Expr) (start : Span) : Parser Expr := do
  if ← sees atOver then
    require .windowFunctions "window functions" (← here)
    match order with
    | some order =>
      invalid "ORDER BY is not allowed in the arguments of a window function" order.span
    | none =>
      let _ ← advance
      let window ← functionWindow rules
      return .windowCall name parameters filter window (← spanFrom start)
  else if order.isSome || filter.isSome then
    return .aggregate name parameters order filter (← spanFrom start)
  else
    return .call name parameters (← spanFrom start)

/-- A call is read by its arguments, its filter and what ends it. -/
lemma functionCall_eq (rules : Rules) :
    functionCall rules = (do
      let token ← advance
      let (parameters, order) ← parenthesized (callParameters rules)
      let filter ← optionalFilter rules
      callEnd rules (nameOf token) parameters order filter token.span) := rfl

/-- A function call is read again up to its filter.

**Proof sketch.** The name is taken again, and the parenthesis after it is next again, so a call is
next. The arguments and the filter are read again, with the same trees but for the spans. What ends
the call is left to the hypothesis, which is about any trees that are the same. -/
lemma functionCall_start (known : E.Known n) {parameters : Parameters} {order : Option OrderBy}
    {filter : Option Expr} {c₂ c₃ : Cursor} {post : Expr → Cursor → Prop}
    (at_ : atCall c.view = true)
    (run₁ : (parenthesized (callParameters E.rules)).run E.dialect c.advance =
      .accepted (parameters, order) c₂)
    (run₂ : (optionalFilter E.rules).run E.dialect c₂ = .accepted filter c₃)
    (follows : E.Follows n c c' (.ofFunctionName (nameOf c.current) ::
      ((Form.parameters E.drift).parens.words (parameters, order) ++
        ((Form.filter E.drift).maybe.words filter ++ rest))))
    (keeps : E.mode.left ≤ c₃.ahead.length)
    (keepsName : E.mode = .written → Keyword.ofText? (nameOf c.current) ≠ some .RAISE)
    (safe₁ : E.Safe (Node.each Node.expr parameters.arguments ++ Node.maybe Node.orderBy order))
    (safe₂ : E.Safe (Node.maybe Node.expr filter)) (quiet : E.Quiet [.filter] c₃ rest)
    (accepts : ∀ parameters' order' filter' c₃', E.Follows n c₃ c₃' rest →
      parameters'.unplaced = parameters.unplaced →
      order'.map OrderBy.unplaced = order.map OrderBy.unplaced →
      filter'.map Expr.unplaced = filter.map Expr.unplaced →
      Accepts E.dialect (callEnd E.again (nameOf c.current) parameters' order' filter'
        c'.current.span) c₃' post) :
    atCall c'.view = true ∧ (c.view.atKeyword .RAISE = false → c'.view.atKeyword .RAISE = false) ∧
      Accepts E.dialect (functionCall E.again) c' post := by
  have le₂ := accepted_length run₂
  have le₁ := accepted_length run₁
  obtain ⟨name, follows, -, call⟩ := follows.functionName at_ (by omega) keepsName
  obtain ⟨⟨parameters', order'⟩, c₂', run₁', follows, same₁⟩ :=
    callParameters_parens_again known run₁ follows (by omega) safe₁ trivial
  obtain ⟨at', notRaise⟩ := call (accepted_expectSymbol run₁').1
  refine ⟨at', notRaise, ?_⟩
  rw [functionCall_eq]
  refine accepts_advance (sound_of_atCall at') (accepts_of_run run₁' ?_)
  refine (optionalFilter_again known).step run₂ follows keeps
    (by rw [maybe_eq] at safe₂; exact safe₂) quiet fun filter' c₃' _ same₂ follows => ?_
  have same₁ : (parameters'.unplaced, order'.map OrderBy.unplaced) =
    (parameters.unplaced, order.map OrderBy.unplaced) := same₁
  rw [name]
  exact accepts parameters' order' filter' c₃' follows (congrArg Prod.fst same₁)
    (congrArg Prod.snd same₁) same₂

/-- A window of a call starts with a parenthesis or a name. -/
lemma functionWindow_starts {rules : Rules} {value : Over}
    (run : (functionWindow rules).run E.dialect c = .accepted value c₁) :
    ((c.peek 0).kind.isSymbol .leftParen || (c.peek 0).kind.isIdentifierLike) = true := by
  unfold functionWindow at run
  rw [run_sees_bind] at run
  split at run
  · next at_ =>
    rw [show (c.peek 0).kind = _ from kind_of_atSymbol at_]
    rfl
  · rw [run_here_bind] at run
    obtain ⟨name, c₂, inner, -, -⟩ := accepted_bind run
    rw [show (c.peek 0).kind.isIdentifierLike = true from (accepted_identifier inner).1,
      Bool.or_true]

/-- **Function calls are read again.**

**Proof sketch.** By whether there was a window (`accepted_functionCall`). In both cases the name,
the arguments and the filter are read again (`functionCall_start`). With a window, `OVER` is next
again, and what is after it starts a window (`functionWindow_starts`), which is read again. Without
one, what follows is quiet about windows, so none starts there again, and the call is of the same
kind as before, because the ordering and the filter are there again exactly if they were. -/
lemma functionCall_again (known : E.Known n) {value : Expr} (at_ : atCall c.view = true)
    (run : (functionCall E.rules).run E.dialect c = .accepted value c₁)
    (follows : E.Follows n c c' ((Form.expr E.drift).words value ++ rest))
    (keeps : E.mode.left ≤ c₁.ahead.length) (safe : E.Safe [.expr value])
    (quiet : E.Quiet exprEnd c₁ rest) :
    atCall c'.view = true ∧ (c.view.atKeyword .RAISE = false → c'.view.atKeyword .RAISE = false) ∧
      Accepts E.dialect (functionCall E.again) c' fun value' c₁' =>
        E.Follows n c₁ c₁' rest ∧ value'.unplaced = value.unplaced := by
  obtain ⟨own, below⟩ := safe_singleton.mp safe
  obtain ⟨parameters, order, filter, c₂, c₃, le₃, run₁, run₂, last⟩ := accepted_functionCall run
  rcases last with ⟨window, isOver, has, rfl, run₃, rfl⟩ | ⟨notOver, rfl, rfl⟩
  · -- a call of a window function
    have below : E.Safe (Node.each Node.expr parameters.arguments ++ Node.maybe Node.expr filter ++
      Node.ofOver window) := below
    simp only [safe_append] at below
    rw [windowCall_words, List.cons_append, List.append_assoc, List.append_assoc,
      List.cons_append] at follows
    have le₄ := accepted_length run₃
    have at₃ : c₃.view.atKeyword .OVER = true := (Bool.and_eq_true _ _ ▸ isOver).1
    refine functionCall_start known at_ run₁ run₂ follows (Nat.le_trans keeps le₃)
      (fun written => (own written).2 _ _ rfl) (safe_append.mpr ⟨below.1.1, safe_nil⟩) below.1.2
      (.front rfl) fun parameters' order' filter' c₃' follows same₁ same₂ same₃ => ?_
    obtain ⟨at₃', next, -⟩ := follows.keyword at₃ (Nat.le_trans keeps le₄)
    obtain ⟨window', c₄', run₃', last, same₄⟩ :=
      functionWindow_again known run₃ next keeps below.2 trivial
    have windowed : atOver c₃'.view = true := by
      rw [over_passes]
      have starts := functionWindow_starts run₃'
      rw [Cursor.peek_advance] at starts
      have kind : (c₃'.peek 0).kind = _ := kind_of_atKeyword at₃'
      simpa [Starter.passes, Starter.first, Starter.second, kind] using starts
    obtain rfl : order' = none := by simpa using same₂
    refine accepts_sees ?_
    rw [if_pos windowed]
    refine Accepts.congr ?_ (run_here_bind ..)
    refine accepts_require has (accepts_advance (sound_of_atKeyword at₃') ?_)
    have same₄ : window'.unplaced = window.unplaced := same₄
    exact accepts_of_run run₃' (.of_return ⟨last, by simp [Expr.unplaced, same₁, same₃, same₄]⟩)
  · -- a call without a window
    have children : E.Safe (Node.ofExpr _) := below
    rw [plainCall_nodes, safe_append] at children
    rw [plainCall_words, List.cons_append, List.append_assoc] at follows
    have keepsName : E.mode = .written → Keyword.ofText? (nameOf c.current) ≠ some .RAISE := by
      intro written
      refine (own written).2 (nameOf c.current) parameters ?_
      split <;> rfl
    refine functionCall_start known at_ run₁ run₂ follows keeps keepsName children.1 children.2
      (quiet.mono rfl) fun parameters' order' filter' c₃' follows same₁ same₂ same₃ => ?_
    refine accepts_sees ?_
    rw [over_passes, Bool.not_eq_true] at notOver
    rw [if_neg (by
      rw [over_passes, quiet.not_passes .overClause follows (by simp [exprEnd]) (by simp) notOver]
      simp)]
    have sameOrder : order'.isSome = order.isSome := by
      rw [← Option.isSome_map (f := OrderBy.unplaced), same₂, Option.isSome_map]
    have sameFilter : filter'.isSome = filter.isSome := by
      rw [← Option.isSome_map (f := Expr.unplaced), same₃, Option.isSome_map]
    rw [sameOrder, sameFilter]
    split <;> exact .of_return ⟨follows, by simp [Expr.unplaced, same₁, same₂, same₃]⟩

end Rereading

end SqlTree
