import SqlTree.Proofs.Reread.Forms
import SqlTree.Proofs.Starts

set_option autoImplicit false

/-!
# What is known about nested parts

The parsers of parts are read again on the assumption that the expressions, queries and table
references inside them are, where fewer tokens are ahead. Expressions may end wherever no operator,
point, parenthesis or clause of a call goes on with them; queries and table references end where in
addition none of their own clauses starts.

## Main definitions

* `SqlTree.Rereading.exprEnd`, `SqlTree.Rereading.tableEnd`, `SqlTree.Rereading.queryEnd` — what
  must not follow an expression, a table reference or a query.
* `SqlTree.Rereading.Known` — nested expressions, queries and table references are read again.
-/

namespace SqlTree.Rereading

open SqlTree.Parser SqlTree.Grammar

/-- What goes on with an expression. -/
def exprEnd : List Starter :=
  [.operator, .symbol .dot, .symbol .leftParen, .filter, .overClause, .keyword .ESCAPE]

/-- What goes on with a sorting term. -/
def termEnd : List Starter :=
  exprEnd ++ [.keyword .ASC, .keyword .DESC, .keyword .NULLS]

/-- What goes on with an item of a sorting clause. -/
def itemEnd : List Starter :=
  .power :: termEnd

/-- What goes on with a sorting clause. -/
def orderEnd : List Starter :=
  .symbol .comma :: itemEnd

/-- What goes on with a table reference. -/
def tableEnd : List Starter :=
  exprEnd ++ [.keyword .AS, .name, .keyword .INDEXED, .keywords .NOT .INDEXED, .symbol .comma,
    .keyword .JOIN, .keyword .INNER, .keyword .LEFT, .keyword .RIGHT, .keyword .FULL,
    .keyword .CROSS, .keyword .NATURAL, .keyword .ON, .keyword .USING]

/-- What goes on with the columns of a result. -/
def columnEnd : List Starter :=
  exprEnd ++ [.keyword .AS, .name, .keywords .MAPPED .BY, .symbol .comma]

/-- What goes on with a member of a query. -/
def coreEnd : List Starter :=
  tableEnd ++ [.keywords .MAPPED .BY, .keyword .FROM, .keyword .WHERE, .keyword .GROUP,
    .keyword .HAVING, .keyword .WINDOW]

/-- What goes on with a query. -/
def queryEnd : List Starter :=
  coreEnd ++ [.keyword .UNION, .keyword .INTERSECT, .keyword .EXCEPT, .keyword .ORDER,
    .keyword .ASC, .keyword .DESC, .keyword .NULLS, .power, .keyword .LIMIT, .keyword .OFFSET]

/-- No token that could go on with an expression is next, not even one that does not do so because
of the token after it. -/
def Done (cursor : Cursor) : Prop :=
  (.power :: exprEnd).all (fun starter => !starter.first cursor.current.kind) = true

/-- A word of a type is next, if these are the next two kinds. -/
def typeWordAt (first second : TokenKind) : Bool :=
  match first with
  | .keyword .GENERATED => !second.isKeyword .ALWAYS
  | .keyword .MAPPED => !second.isKeyword .BY
  | .keyword .JSON => !second.isKeyword .KEY
  | _ => first.isIdentifierLike

variable (E : Rereading) {n : Nat} {c c' c₁ c₁' : Cursor} {rest : List Word}

/-- Where a sorting clause or a limit may end. -/
def Ends (starters : List Starter) (cursor : Cursor) (rest : List Word) : Prop :=
  E.Quiet starters cursor rest ∧ Done cursor

/-- Where a type may end: neither a further word of it follows nor an argument. -/
structure EndsType (cursor : Cursor) (rest : List Word) : Prop where
  word : typeWordAt (Word.kindAt (E.plan cursor rest) 0)
    (Word.kindAt (E.plan cursor rest) 1) = false
  arguments : (Word.kindAt (E.plan cursor rest) 0).isSymbol .leftParen = false

/-- Nested expressions, queries and table references with fewer than `n` tokens ahead are read
again. -/
structure Known (n : Nat) : Prop where
  enough : n ≤ E.again.limit
  operators : ∀ least, E.Reruns n (.expr E.drift) (E.Quiet exprEnd) (E.rules.operators least)
    (E.again.operators least)
  query : E.Reruns n (.query E.drift) (E.Ends queryEnd) E.rules.query E.again.query
  tableRef : E.Reruns n (.tableRef E.drift) (E.Quiet tableEnd) E.rules.tableRef E.again.tableRef
  type : E.Reruns n (.typeName E.drift) E.EndsType (typeName E.rules.limit)
    (typeName E.again.limit)
  sound : E.rules.Sound E.dialect
  sound' : E.again.Sound E.dialect
  /-- A query is written with the keyword in front that it was read with. -/
  queryFront : ∀ {c query c₁}, E.rules.query.run E.dialect c = .accepted query c₁ →
    c.Reachable E.drift → c₁.ahead.length ≤ c.advance.ahead.length ∧
      ∃ word ws, (Form.query E.drift).words query = .ofKeyword word :: ws ∧
        c.view.atKeyword word = true
  /-- An expression is written with one of these keywords in front only if it was read so. -/
  front : ∀ {least c expr c₁},
    (E.rules.operators least).run E.dialect c = .accepted expr c₁ → c.Reachable E.drift →
    ∀ word ∈ [Keyword.NOT, .NULL, .EXISTS], ∀ rest,
      Word.kindAt ((Form.expr E.drift).words expr ++ rest) 0 = .keyword word →
        c.current.kind = .keyword word

namespace Known

variable {E} (known : E.Known n)
include known

/-- Expressions are read again. -/
lemma expr : E.Reruns n (.expr E.drift) (E.Quiet exprEnd) E.rules.expr E.again.expr :=
  known.operators 0

/-- Lists of expressions are read again. -/
lemma exprs : E.Reruns n (Form.expr E.drift).commas (E.Quiet (.symbol .comma :: exprEnd))
    E.rules.exprs E.again.exprs :=
  known.expr.commaSeparated known.enough (fun _ _ _ => .front rfl)
    fun _ _ quiet => ⟨quiet.mono rfl, quiet.mono rfl⟩

end Known

variable {E}

/-- A query is done before a keyword that is neither an operator nor goes on with an expression. -/
lemma done_of_keyword {word : Keyword} (at_ : c.view.atKeyword word = true)
    (inert : (Starter.power :: exprEnd).all
      (fun starter => !starter.first (.keyword word)) = true) : Done c := by
  unfold Done
  rw [kind_of_atKeyword at_]
  exact inert

/-- A query is done before a symbol that is neither an operator nor goes on with an expression. -/
lemma done_of_symbol {which : Symbol} (at_ : c.view.atSymbol which = true)
    (inert : (Starter.power :: exprEnd).all
      (fun starter => !starter.first (.symbol which)) = true) : Done c := by
  unfold Done
  rw [kind_of_atSymbol at_]
  exact inert

/-- A keyword that goes on with what was read was there in the first source too, if what it goes on
with does not depend on the token after it. -/
lemma Quiet.at_keyword {word : Keyword} {starters : List Starter}
    (at_ : c.view.atKeyword word = true)
    (inert : starters.all (fun starter => !starter.first (.keyword word) ||
      starter.second .endOfInput && (starter != .operator || word != .NOT)) = true) :
    E.Quiet starters c (.ofKeyword word :: rest) := by
  refine .of_written fun _ starter mem => ?_
  have inert := List.all_eq_true.mp inert starter mem
  have kind : (c.peek 0).kind = .keyword word := kind_of_atKeyword at_
  rw [kind]
  rw [Bool.or_eq_true, Bool.and_eq_true] at inert
  rcases inert with fails | ⟨single, plain⟩
  · exact Starter.carries_of_first (by simpa using fails)
  by_cases operator : starter = .operator
  · subst operator
    intro least passes
    have plain : ((word == .NOT) = false) := by simpa using plain
    simpa [operatorAt, plain, Word.ofKeyword] using passes
  · exact Starter.carries_of_second operator single

/-- A test of one keyword fails in the second source, if a test of two starts with it. -/
lemma atKeywords_of_kinds {first second : Keyword} (one : (c.peek 0).kind = .keyword first)
    (two : (c.peek 1).kind = .keyword second) : c.view.atKeywords first second = true := by
  change ((c.peek 0).isKeyword first && (c.peek 1).isKeyword second) = true
  rw [Token.isKeyword_eq, Token.isKeyword_eq, one, two]
  simp

/-- Where two keywords are next, the next tokens are of their kinds. -/
lemma kinds_of_atKeywords {first second : Keyword} (at_ : c.view.atKeywords first second = true) :
    (c.peek 0).kind = .keyword first ∧ (c.peek 1).kind = .keyword second := by
  change ((c.peek 0).isKeyword first && (c.peek 1).isKeyword second) = true at at_
  rw [Token.isKeyword_eq, Token.isKeyword_eq, Bool.and_eq_true, TokenKind.isKeyword_iff,
    TokenKind.isKeyword_iff] at at_
  exact at_

end SqlTree.Rereading
