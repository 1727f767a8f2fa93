import SqlTree.Proofs.Sources

set_option autoImplicit false

/-!
# Parsing ends

Every turn of every loop takes a token, and an expression, a query or a table reference inside
another one is reached after a token of the outer one. So with one more than the number of tokens
ahead as the bound on every loop and on the depth, no bound is ever reached, and larger bounds
change nothing. Nothing but taking a token moves the cursor.

## Main definitions

* `SqlTree.Grammar.Rules.LoopsAdvance` — the turns of all loops take tokens.
* `SqlTree.Grammar.Rules.Ample` — no bound of the parts is reached on fewer than `k` tokens.

## Main results

* `SqlTree.Grammar.rules_loopsAdvance` — all loops advance.
* `SqlTree.Grammar.Rules.Ample.wholes` — parts are reached with fewer tokens ahead than the whole.
* `SqlTree.Entry.parser_terminates` — every way of reading a source ends.
-/

namespace SqlTree

open SqlTree.Parser SqlTree.Grammar

/-! ## Moving forward -/

/-- A run stops some steps ahead of where it started. -/
lemma Parser.run_advances {α : Type} (parser : Parser α) (dialect : Dialect) (cursor : Cursor) :
    ∃ count, (parser.run dialect cursor).cursor = Cursor.advance^[count] cursor := by
  induction parser generalizing cursor with
  | done | reject => exact ⟨0, rfl⟩
  | look next ih | ask next ih | read start next ih => exact ih _ cursor
  | take next ih =>
    simp only [run]
    split
    · exact ⟨0, rfl⟩
    · obtain ⟨count, eq⟩ := ih cursor.current cursor.advance
      exact ⟨count + 1, by rw [eq, Function.iterate_succ_apply]⟩
  | demand feature construct span next ih =>
    simp only [run]
    split
    · exact ih _ cursor
    · exact ⟨0, rfl⟩

namespace Grammar

/-! ## Loops -/

/-- Each turn of each loop of the grammar takes a token, or ends the loop. -/
structure Rules.LoopsAdvance (rules : Rules) : Prop where
  /-- Lists with commas, of anything: expressions, names, columns, rows, members of a table, ... -/
  lists : ∀ {α : Type} (which : Symbol) (part : Parser α),
    Progress (do if ← eatSymbol which then return some (← part) else return none)
  operators : ∀ least left, Progress (nextOperator rules least left)
  branches : Progress (whenever (·.atKeyword .WHEN) (whenClause rules))
  joins : ∀ left, Progress (nextJoin rules left)
  compounds : Progress (nextCompound rules)
  typeWords : Progress (whenever atTypeWord do return (← advance).lexeme)
  rawArguments : ∀ state, Progress (rawArgumentStep state)
  upserts : Progress (whenever (·.atKeywords .ON .CONFLICT) (upsert rules))
  referentialActions : Progress nextReferentialAction
  columnConstraints : Progress (nextColumnConstraint rules)
  triggerStatements : Progress do
    if ← eatKeyword .END then return none else return some (← triggerStatement rules)
  semicolons : Progress (whenever (·.atSymbol .semicolon) advance)
  statements : Progress (nextEntry rules (statement rules))
  driftEntries : Progress (nextEntry rules (driftEntry rules))

/-- **Loops advance.** -/
theorem rules_loopsAdvance {limit depth : Nat} (some : 0 < limit) (deep : 0 < depth) :
    (rules limit depth).LoopsAdvance := by
  have settles := rules_settles Nat.one_pos some some deep deep
  exact {
    lists := fun _ part => .afterSymbol part
    operators := nextOperator_progress settles
    branches := whenClause_progress
    joins := nextJoin_progress settles
    compounds := nextCompound_progress settles
    typeWords := typeWord_progress
    rawArguments := rawArgumentStep_progress
    upserts := upsert_progress
    referentialActions := referentialAction_progress
    columnConstraints := nextColumnConstraint_progress
    triggerStatements := triggerStatement_progress
    semicolons := semicolon_progress
    statements := nextEntry_progress (statement_steps settles)
    driftEntries := nextEntry_progress (driftEntry_steps settles) }

/-! ## Parts -/

/-- No bound of the parts is reached where fewer than `k` tokens are ahead. Where more are ahead,
the parts may do anything. -/
structure Rules.Ample (k : Nat) (rules : Rules) : Prop where
  enough : k ≤ rules.limit
  operators : ∀ least, Parser.Ample k (rules.operators least)
  query : Parser.Ample k rules.query
  tableRef : Parser.Ample k rules.tableRef

/-- **Parts are reached with fewer tokens ahead** than the expression, query or table reference that
they stand in has: what the parts do with as many tokens ahead does not matter to it. -/
theorem Rules.Ample.wholes {k : Nat} {rules : Rules} (parts : rules.Ample k) :
    (∀ least, Parser.Ample (k + 1) (expression rules least)) ∧
      Parser.Ample (k + 1) (Grammar.query rules) ∧ Parser.Ample (k + 1) (joinedTables rules) := by
  rcases Nat.eq_zero_or_pos k with rfl | some
  · -- without tokens ahead no part is reached
    have wholes := atEnd_settles rules rules
    exact ⟨fun least => (wholes.1 least).ample, wholes.2.1.ample, wholes.2.2.ample⟩
  · have settles : rules.Settles k rules :=
      ⟨some, parts.enough, parts.enough, fun least => ⟨.refl _, parts.operators least⟩,
        ⟨.refl _, parts.query⟩, ⟨.refl _, parts.tableRef⟩⟩
    exact ⟨fun least => (expression_settles settles least).settles.ample,
      (query_settles settles).settles.ample, (joinedTables_settles settles).settles.ample⟩

end Grammar

/-! ## Whole sources -/

namespace Entry

/-- **Parsing ends, whatever the tokens are.** From any place, with bounds on the loops and on the
depth that are larger than the number of tokens ahead, no bound is reached, the result does not
depend on the bounds, and the cursor only moves forward. The turns of all loops take tokens, and
parts are reached with fewer tokens ahead than what they stand in. -/
theorem parser_terminates (entry : Entry) (dialect : Dialect) {cursor : Cursor}
    (ends : cursor.Ends) :
    (∀ limit depth, cursor.ahead.length < limit → cursor.ahead.length < depth →
      let outcome := (entry.parser (rules limit depth)).run dialect cursor
      outcome = bounded dialect entry.parser cursor ∧
      (∀ error stop, outcome = .rejected error stop → error.kind ≠ .exhausted) ∧
      (∃ count, outcome.cursor = Cursor.advance^[count] cursor) ∧
      (rules limit depth).LoopsAdvance) ∧
    ∀ k parts, Rules.Ample k parts →
      (∀ least, Ample (k + 1) (Grammar.expression parts least)) ∧ Ample (k + 1) (query parts) ∧
        Ample (k + 1) (joinedTables parts) := by
  refine ⟨fun limit depth enough deep => ?_, fun k parts ample => ample.wholes⟩
  have some : 0 < limit := Nat.zero_lt_of_lt enough
  have settles := rules_settles (Nat.succ_pos cursor.ahead.length) enough enough deep deep
  refine ⟨run_of_enough entry ends enough deep, fun error stop run => ?_,
    run_advances _ dialect cursor, rules_loopsAdvance some (Nat.zero_lt_of_lt deep)⟩
  exact (parser_settles settles entry).ample ends (Nat.lt_succ_self _) run

/-- A query inside an expression, cut off in the middle. -/
theorem parser_terminates_nested :
    (Cursor.ofSource false "SELECT (1 + (SELECT 2").Ends ∧
    ∀ error stop, bounded .generic statement.parser
      (Cursor.ofSource false "SELECT (1 + (SELECT 2") =
      .rejected error stop → error.kind ≠ .exhausted := by
  have ends : (Cursor.ofSource false "SELECT (1 + (SELECT 2").Ends := Cursor.ends_ofTokens _ _
  refine ⟨ends, fun error stop run => ?_⟩
  obtain ⟨same, ample, -⟩ := (parser_terminates .statement .generic ends).1 _ _
    (Nat.lt_succ_self _) (Nat.lt_succ_self _)
  exact ample error stop (same.trans run)

end Entry

end SqlTree
