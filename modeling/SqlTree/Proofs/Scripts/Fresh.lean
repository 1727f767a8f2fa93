import SqlTree.Proofs.Careful.Setting

set_option autoImplicit false

/-!
# Parsers that start afresh

The token behind matters to spans and texts only, and these end with a token that has been taken. So
where a parser starts, it does not matter what was taken before.

## Main definitions

* `SqlTree.Parser.Fresh` — a parser does not look behind until it has taken a token.

## Main results

* `SqlTree.Parser.Fresh.result_run` — runs that start afresh after different tokens.
* `SqlTree.Grammar.script_fresh`, `SqlTree.Grammar.wholeExpression_fresh` — scripts and expressions
  start afresh.
-/

namespace SqlTree

namespace Parser

variable {α β : Type} {good : α → Prop} {later : β → Prop} {parser : Parser α}

/-- The parser does not look behind until it has taken a token, and the values that it ends with
before that are good. -/
def Fresh : Parser α → (α → Prop) → Prop
  | .done value, good => good value
  | .reject _, _ => True
  | .look next, good =>
    (∀ view token, next { view with previous := token } = next view) ∧
      ∀ view, (next view).Fresh good
  | .take _, _ => True
  | .demand _ _ _ next, good => (next ()).Fresh good
  | .ask next, good => ∀ drift, (next drift).Fresh good
  | .read _ _, _ => False

namespace Fresh

/-- A sequence starts afresh if its first part does, and the second one where the first may end
without a token. -/
lemma bind {next : α → Parser β} (first : parser.Fresh good)
    (second : ∀ value, good value → (next value).Fresh later) : (parser >>= next).Fresh later := by
  change (parser.andThen next).Fresh later
  induction parser with
  | done value => exact second value first
  | reject | take => trivial
  | look continuation ih =>
    exact ⟨fun view token => congrArg (andThen · next) (first.1 view token),
      fun view => ih view (first.2 view)⟩
  | demand feature construct span continuation ih => exact ih () first
  | ask continuation ih => exact fun drift => ih drift (first drift)
  | read => exact first.elim

/-- After a parser that takes a token, anything may follow. -/
lemma followed {next : α → Parser β} (first : parser.Fresh fun _ => False) :
    (parser >>= next).Fresh later :=
  first.bind fun _ never => never.elim

/-- **What was taken before does not matter** to an orderly run that starts afresh. -/
lemma result_run {origin cursor : Cursor} {accepts : α → Prop} {dialect : Dialect}
    (fresh : parser.Fresh good) (orderly : parser.Orderly origin cursor accepts)
    (ends : cursor.Ends) (token : Token) :
    (parser.run dialect { cursor with previous := token }).result =
      (parser.run dialect cursor).result := by
  induction parser with
  | done | reject => rfl
  | look next ih =>
    have same := fresh.1 cursor.view token
    change ((next { cursor.view with previous := token }).run dialect _).result = _
    rw [same]
    exact ih _ (fresh.2 _) orderly
  | take next ih =>
    -- after the token both runs are at the same place
    obtain ⟨taken, rest, eq⟩ :=
      List.exists_cons_of_ne_nil (Cursor.ahead_of_proper ends orderly.1)
    have current : Cursor.current { cursor with previous := token } = cursor.current := rfl
    have place : Cursor.advance { cursor with previous := token } = cursor.advance := by
      simp [Cursor.advance, eq]
    simp only [run, current, place]
    split <;> rfl
  | demand feature construct span next ih =>
    simp only [run]
    split
    · exact ih _ fresh orderly.2
    · rfl
  | ask next ih => exact ih _ (fresh _) (orderly.2 _)
  | read => exact fresh.elim

/-! ### Parts -/

/-- A choice starts afresh if both of its branches do. -/
lemma ite {condition : Prop} [Decidable condition] {first second : Parser α}
    (yes : first.Fresh good) (no : second.Fresh good) :
    (if condition then first else second).Fresh good := by
  split
  · exact yes
  · exact no

/-- What is read where the tokens ahead have been seen. -/
lemma look {next : View → Parser α}
    (blind : ∀ view token, next { view with previous := token } = next view)
    (rest : ∀ view, (next view).Fresh good) : (view >>= next).Fresh good :=
  ⟨blind, rest⟩

/-- Looking up the place of the next token does not look behind. -/
lemma here {next : Span → Parser α} (rest : ∀ span, (next span).Fresh good) :
    (here >>= next).Fresh good :=
  ⟨fun _ _ => rfl, fun _ => rest _⟩

/-- Looking at the next token does not look behind. -/
lemma current {next : Token → Parser α} (rest : ∀ token, (next token).Fresh good) :
    (current >>= next).Fresh good :=
  ⟨fun _ _ => rfl, fun _ => rest _⟩

/-- A choice by the next tokens does not look behind, if the test does not. -/
lemma ifSees {test : View → Bool} {yes no : Parser α}
    (blind : ∀ view token, test { view with previous := token } = test view)
    (whenYes : yes.Fresh good) (whenNo : no.Fresh good) :
    (do if ← sees test then yes else no).Fresh good :=
  ⟨fun view token => by simp only [blind], fun _ => ite whenYes whenNo⟩

/-- Going on by a token takes it. -/
lemma advance : advance.Fresh fun _ => False :=
  trivial

/-- A value needs no token. -/
lemma of_pure {value : α} (holds : good value) : (pure value : Parser α).Fresh good :=
  holds

/-- What accepts nothing starts afresh. -/
lemma of_unexpected (expected : String) : (unexpected expected : Parser α).Fresh good :=
  ⟨fun _ _ => rfl, fun _ => trivial⟩

/-- A bound that is reached starts afresh. -/
lemma of_exhausted : (exhausted : Parser α).Fresh good :=
  ⟨fun _ _ => rfl, fun _ => trivial⟩

/-- A required keyword is a token. -/
lemma expectKeyword (word : Keyword) : (expectKeyword word).Fresh fun _ => False :=
  .ifSees (fun _ _ => rfl) (.followed .advance) (.of_unexpected _)

/-- Required keywords are tokens. -/
lemma expectKeywords (word : Keyword) (words : List Keyword) :
    (expectKeywords (word :: words)).Fresh fun _ => False :=
  (expectKeyword word).followed

/-- A required symbol is a token. -/
lemma expectSymbol (which : Symbol) : (expectSymbol which).Fresh fun _ => False :=
  .ifSees (fun _ _ => rfl) (.followed .advance) (.of_unexpected _)

/-- A name is a token. -/
lemma identifier : identifier.Fresh fun _ => False :=
  .ifSees (fun _ _ => rfl) (.followed .advance) (.of_unexpected _)

/-- A keyword that is there is taken. -/
lemma eatKeyword (word : Keyword) : (eatKeyword word).Fresh (· = false) :=
  .ifSees (fun _ _ => rfl) (.followed .advance) (.of_pure rfl)

/-- A choice by the next keyword starts afresh if its second branch does: before the first one, the
keyword is taken. -/
lemma ifKeyword {word : Keyword} {yes no : Parser α} (whenNo : no.Fresh good) :
    (do if ← Parser.eatKeyword word then yes else no).Fresh good :=
  (eatKeyword word).bind fun _ not => by rw [not]; exact whenNo

/-- Loops start afresh if their steps do. -/
lemma iterate {σ : Type} {step : σ → Parser (Option σ)}
    (each : ∀ state, (step state).Fresh fun _ => True) (fuel : Nat) (state : σ) :
    (iterate step fuel state).Fresh fun _ => True := by
  induction fuel generalizing state with
  | zero => exact of_exhausted
  | succ fuel ih =>
    refine (each state).bind fun next _ => ?_
    cases next with
    | none => trivial
    | some state => exact ih state

/-- Repetitions start afresh if their turns do. -/
lemma many {step : Parser (Option α)} (each : step.Fresh fun _ => True) (fuel : Nat) :
    (many fuel step).Fresh fun _ => True :=
  .bind (iterate (fun _ => each.bind fun _ _ => of_pure trivial) fuel []) fun _ _ => of_pure trivial

end Fresh

end Parser

namespace Grammar

open SqlTree.Parser

variable {rules : Rules}

/-! ## Expressions -/

/-- A variable is a token. -/
lemma variableExpr_fresh : variableExpr.Fresh fun _ => False := by
  refine .look (fun _ _ => rfl) fun view => ?_
  split
  · split
    · exact fun _ => .ite (.followed .advance) (.followed .advance)
    · exact .followed .advance
  · exact .of_unexpected _

/-- `EXISTS` takes a token, its keyword. -/
lemma existsExpr_fresh : (existsExpr rules).Fresh fun _ => False := by
  unfold existsExpr
  refine .here fun start => ?_
  refine .bind (.eatKeyword _) fun negated _ => ?_
  exact (Fresh.expectKeyword _).followed

/-- An operand without prefix takes a token. -/
lemma primary_fresh : (primary rules).Fresh fun _ => False := by
  refine .look (fun _ _ => rfl) fun view => ?_
  split
  · exact .followed .advance
  · split
    · exact (Fresh.expectSymbol _).followed
    · exact (Fresh.expectKeyword _).followed
    · exact (Fresh.expectKeyword _).followed
    · exact existsExpr_fresh
    · refine .ite (Fresh.expectKeyword _).followed ?_
      refine .ite (.followed .advance) ?_
      refine .ite ?_ variableExpr_fresh
      refine .here fun start => ?_
      exact Fresh.identifier.followed

/-- An operand takes a token. -/
lemma operand_fresh : (operand rules).Fresh fun _ => False := by
  refine .look (fun _ _ => rfl) fun view => .ite existsExpr_fresh ?_
  split
  · exact .followed .advance
  · exact primary_fresh

/-- **Expressions start afresh.** -/
lemma wholeExpression_fresh (limit depth : Nat) :
    (wholeExpression (Grammar.rules limit depth)).Fresh fun _ => False := by
  cases depth with
  | zero => exact .followed .of_exhausted
  | succ depth => exact .followed (.followed operand_fresh)

/-! ## Statements -/

/-- `WITH` is a token. -/
lemma withClause_fresh : (withClause rules).Fresh fun _ => False :=
  (Fresh.expectKeyword _).followed

/-- A member of a query takes a token, its keyword. -/
lemma queryCore_fresh : (queryCore rules).Fresh fun _ => False := by
  refine .current fun token => ?_
  split
  · exact .followed (Fresh.expectKeyword _).followed
  · exact .followed (Fresh.expectKeyword _).followed
  · exact .of_unexpected _

/-- An insertion takes a token, its first keyword. -/
lemma insertMode_fresh : insertMode.Fresh fun _ => False :=
  .ifKeyword (Fresh.expectKeyword _).followed

/-- A statement about data takes a token, the keyword it starts with. -/
lemma dataStatementAfter_fresh (commonTables : Option WithClause) (start : Span)
    (expected : String) :
    (dataStatementAfter rules commonTables start expected).Fresh fun _ => False := by
  unfold dataStatementAfter
  refine .look (fun _ _ => rfl) fun view => .ite (.followed queryCore_fresh.followed) ?_
  refine .ite (.followed insertMode_fresh.followed) ?_
  refine .ite (.followed (Fresh.expectKeyword _).followed) ?_
  exact .ite (.followed (Fresh.expectKeywords _ _).followed) (.of_unexpected _)

/-- A statement about data takes a token, be it that of `WITH`. -/
lemma dataStatement_fresh (expected : String) :
    (dataStatement rules expected).Fresh fun _ => False :=
  .here fun _ => .ifSees (fun _ _ => rfl) withClause_fresh.followed (dataStatementAfter_fresh _ _ _)

/-- A statement takes a token. -/
lemma statement_fresh : (statement rules).Fresh fun _ => False :=
  .ifSees (fun _ _ => rfl) (Fresh.expectKeyword _).followed (dataStatement_fresh _).followed

/-! ## Scripts -/

/-- A turn of the loop over entries starts afresh, if an entry takes a token. -/
lemma nextEntry_fresh {α : Type} {entry : Parser α} (fresh : entry.Fresh fun _ => False) :
    (nextEntry rules entry).Fresh fun _ => True := by
  unfold nextEntry
  refine .bind (.many ?_ _) fun semicolons _ => ?_
  · exact .ifSees (fun _ _ => rfl) (.followed .advance) (.of_pure trivial)
  · exact .ifSees (fun _ _ => rfl) (.of_pure trivial) fresh.followed

/-- **Scripts start afresh.** -/
lemma script_fresh : (script rules).Fresh fun _ => True :=
  .many (nextEntry_fresh statement_fresh) _

end Grammar

end SqlTree
