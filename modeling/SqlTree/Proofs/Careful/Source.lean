import SqlTree.Proofs.Careful.Statement

set_option autoImplicit false

/-!
# Careful parsers of whole sources

The parsers of whole sources read up to the end of input, so they are careful only where nothing
follows the source.

## Main results

* `SqlTree.Entry.parser_careful` — each way of reading a source is careful.
* `SqlTree.Entry.parser_orderly` — so from the start of a source its runs are orderly.
-/

namespace SqlTree.Grammar

open SqlTree.Parser

variable {S : Surroundings} {cursor : Cursor} {rules : Rules}

section

variable (careful : rules.Careful S) (alone : S.sequel = none)

/-! ## Sources of statements -/

include alone

/-- The demand for the end of input is careful where nothing follows the source. -/
lemma expectEnd_careful (expected : String) : Careful S (expectEnd expected) fun _ => True :=
  .ifSees (.of_alone alone _) (fun _ reached _ => Careful.of_pure trivial reached)
    (.of_unexpected _)

include careful

/-- A source that is a statement is careful. A semicolon may only be taken since nothing follows. -/
lemma wholeStatement_careful : Careful S (wholeStatement rules) fun _ => True := by
  unfold wholeStatement
  refine .skip (statement_careful careful) fun statement => ?_
  refine .skip (.eatSymbol fun _ => alone) fun _ => ?_
  refine .skip (expectEnd_careful alone _) fun _ => ?_
  exact .of_pure trivial

/-- A source that is an expression is careful. -/
lemma wholeExpression_careful : Careful S (wholeExpression rules) fun _ => True := by
  unfold wholeExpression
  refine .skip (expr_careful careful) fun expr => ?_
  refine .skip (expectEnd_careful alone _) fun _ => ?_
  exact .of_pure trivial

omit careful in
/-- Entries that are ended by semicolons are careful if one entry is.

**Proof sketch.** Whether a semicolon or the end of input is next matters here, and is the same
since nothing follows the source. So what ends an entry is careful (`ends`), and leaving out
semicolons is (`semicolon`), and with them a step of the loop (`next`). -/
lemma entries_careful {α : Type} {entry : Parser α} (one : Careful S entry fun _ => True) :
    Careful S (entries rules entry) fun _ => True := by
  have ends : Careful S entryEnd fun _ => True := by
    refine .ifSees (.of_alone alone _) (fun _ reached _ => Careful.of_pure trivial reached) ?_
    refine .skip (.expectSymbol _) fun _ => ?_
    exact .of_pure trivial
  have semicolon : Careful S (whenever (·.atSymbol .semicolon) advance) fun _ => True :=
    .whenSeen (.of_alone alone _) fun cursor reached at_ => by
      have taken : CarefulOn S (advance >>= pure) (fun _ => True) cursor :=
        .take reached (.of_isSymbol at_) fun _ _ => .of_pure trivial
      rwa [bind_pure] at taken
  have next : Careful S (nextEntry rules entry) fun _ => True := by
    refine .skip (.many semicolon _) fun _ => ?_
    refine .ifSees (.of_alone alone _) (fun _ reached _ => Careful.of_pure trivial reached) ?_
    refine .skip one fun value => ?_
    refine .skip ends fun _ => ?_
    exact .of_pure trivial
  exact .many next _

/-- A script is careful. -/
lemma script_careful : Careful S (script rules) fun _ => True :=
  entries_careful alone (statement_careful careful)

/-! ## Hints about variables -/

omit alone in
/-- A variable with a default value is careful where one is next: its name and the equals sign have
been seen. -/
lemma defaultValue_careful {name : String} (reached : S.origin.Reaches cursor)
    (at_ : atDefaultValue cursor.view = some name) :
    CarefulOn S (defaultValue rules name) (fun _ => True) cursor := by
  unfold atDefaultValue at at_
  split at at_
  · next second =>
    have proper : cursor.current.IsProper := .of_kind (kind_of_dollarName at_) rfl
    exact .here (Cursor.ahead_of_proper (reached.ends S.ends) proper) <|
      .advanceTwice reached proper (.of_isSymbol second) <|
      .skip (expr_careful careful) fun _ => .returns
  · simp at at_

omit careful alone in
/-- The type of a variable is careful. -/
lemma variableType_careful : Careful S (variableType rules) fun _ => True := by
  unfold variableType
  refine .skip (.eatKeyword _) fun isAs => .ite ?_ (.of_pure trivial)
  refine .skip (typeName_careful _) fun type => ?_
  exact .ifSees (.atKeywords _ _) (fun _ reached at_ => .keywords reached at_ (.of_pure trivial))
    (.of_pure trivial)

omit careful in
/-- A variable with a type is careful. -/
lemma typedVariable_careful : Careful S (typedVariable rules) fun _ => True := by
  refine .hereAlone alone fun start _ => ?_
  refine .skip (.eatKeyword _) fun required => ?_
  refine .current (.current fun token kind => ?_) fun cursor reached => ?_
  · rw [kind]
    exact .of_unexpected _
  · split
    · next which kind =>
      exact .take reached (.of_kind kind rfl) fun _ _ => .skip variableType_careful
        fun value => by cases value; exact .returns
    · exact .of_unexpected _

/-- The hints about variables are careful. -/
lemma statementParameters_careful : Careful S (statementParameters rules) fun _ => True := by
  have parameter : Careful S (statementParameter rules) fun _ => True := by
    refine .lookAlone alone fun cursor reached => ?_
    split
    · next at_ => exact defaultValue_careful careful reached at_
    · exact typedVariable_careful alone reached
  have listed : Careful S (do
      if ← sees (·.atSymbol .rightParen) then return []
      else commaSeparated rules.limit (statementParameter rules)) fun _ => True := by
    refine .ifSees (.of_alone alone _) (fun cursor reached _ => ?_) (.commaSeparated parameter _)
    exact Careful.of_pure trivial reached
  refine .skip (.whenever (.of_alone alone _) (.parenthesized listed)) fun parameters => ?_
  exact .of_pure trivial

/-! ## Drift files -/

/-- A named statement is careful. -/
lemma declaredStatement_careful : Careful S (declaredStatement rules) fun _ => True := by
  unfold declaredStatement
  refine .hereAlone alone fun start _ => ?_
  refine .skip .identifier fun name => ?_
  refine .skip (statementParameters_careful careful alone) fun parameters => ?_
  refine .skip asName_careful fun resultClass => ?_
  refine .skip (.expectSymbol _) fun _ => ?_
  refine .skip (statement_careful careful) fun statement => ?_
  exact .returns

/-- An entry of a drift file is careful. An import and `@create` are taken after they were seen, and
whatever else is next is left to the parsers of statements. -/
lemma driftEntry_careful : Careful S (driftEntry rules) fun _ => True := by
  refine .lookAlone alone fun cursor reached => ?_
  dsimp only
  split
  · next uri at_ =>
    unfold atImport at at_
    split at at_
    · next kind kind' =>
      exact .advanceTwice reached (.of_kind kind rfl) (.of_kind kind' rfl) .returns
    · simp at at_
  · split
    · next at_ =>
      have proper : cursor.current.IsProper := by
        unfold atOnCreate at at_
        split at at_
        · next kind => exact .of_kind kind rfl
        · exact absurd at_ Bool.false_ne_true
      refine .take reached proper fun _ _ => ?_
      refine .skip (.expectSymbol _) fun _ => ?_
      refine .skip (statement_careful careful) fun statement => ?_
      exact .returns
    · exact .ite
        (Careful.skip (declaredStatement_careful careful alone) (fun _ => .of_pure trivial) reached)
        (Careful.skip (statement_careful careful) (fun _ => .of_pure trivial) reached)

/-- A drift file is careful: the drift extensions are required at its start. -/
lemma driftFile_careful : Careful S (driftFile rules) fun _ => True := by
  unfold driftFile
  refine .hereAlone alone fun start begins => ?_
  refine .skip (.require begins) fun _ => ?_
  refine .skip (entries_careful alone (driftEntry_careful careful alone)) fun list => ?_
  exact .of_pure trivial

end

end SqlTree.Grammar

namespace SqlTree.Entry

open SqlTree.Parser

/-- **Each way of reading a source is careful**, where nothing follows the source. -/
lemma parser_careful (entry : Entry) {S : Surroundings} {rules : Grammar.Rules}
    (careful : rules.Careful S) (alone : S.sequel = none) :
    Careful S (entry.parser rules) fun _ => True :=
  match entry with
  | .statement => Grammar.wholeStatement_careful careful alone
  | .expression => Grammar.wholeExpression_careful careful alone
  | .script => Grammar.script_careful careful alone
  | .driftFile => Grammar.driftFile_careful careful alone

/-- **Runs from the start of a source are orderly.** -/
theorem parser_orderly (entry : Entry) (limit depth : Nat) {cursor : Cursor} (ends : cursor.Ends)
    (inner : ∀ token ∈ cursor.ahead, token.kind ≠ .endOfInput) :
    (entry.parser (Grammar.rules limit depth)).Orderly cursor cursor fun _ => True :=
  let S : Surroundings := ⟨cursor, ends, inner, none⟩
  (entry.parser_careful (Grammar.rules_careful S limit depth) rfl
    (Cursor.Reaches.refl cursor)).orderly

/-- Runs from the start of a source are orderly, with the rules that suffice for it. -/
lemma start_orderly (entry : Entry) (dialect : Dialect) (source : String) :
    (entry.parser (Grammar.rulesFor (dialect.start source).ahead.length)).Orderly
      (dialect.start source) (dialect.start source) fun _ => True :=
  let reachable : (dialect.start source).Reachable dialect.isDrift := .ofSource source
  entry.parser_orderly _ _ reachable.ends.1 reachable.ends.2

end SqlTree.Entry
