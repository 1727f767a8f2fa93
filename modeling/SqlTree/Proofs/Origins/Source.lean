import SqlTree.Proofs.Origins.Schema
import SqlTree.Proofs.Sources
import SqlTree.Proofs.Spans.Source

set_option autoImplicit false

/-!
# Where the parts of whole sources come from

## Main results

* `SqlTree.Entry.parser_traced` — all nodes of whatever is accepted as a whole source are traced.
-/

namespace SqlTree

namespace Grammar

open SqlTree.Parser SqlTree.Node Cursor

variable {α : Type} {site : Site} {limit depth : Nat} (traced : (rules limit depth).Traced site)

/-- A statement ends at the end of the source. -/
lemma statementEnd_of_isEnd {cursor : Cursor} (ends : cursor.current.isEnd = true) :
    cursor.AtStatementEnd := by
  unfold AtStatementEnd
  rw [Token.isEnd_iff.mp ends]
  rfl

/-- A statement ends at a semicolon. -/
lemma statementEnd_of_semicolon {cursor : Cursor}
    (at_ : cursor.view.atSymbol .semicolon = true) : cursor.AtStatementEnd := by
  unfold AtStatementEnd
  rw [Rereading.kind_of_atSymbol at_]
  rfl

/-! ## Entries -/

/-- The entries of a source have what each entry has before a semicolon or the end of input. -/
lemma entries_give {rules : Rules} {entry : Parser α} {property : α → Prop}
    (each : GivesBefore site AtStatementEnd entry property) :
    Gives site (entries rules entry) fun list => ∀ value ∈ list, property value := by
  refine .many ?_ _
  unfold nextEntry
  refine .skip fun _ => .skip fun isEnd => .ite (.of_pure (by simp)) ?_
  refine .bindBefore each ?_ fun value holds => .skip fun _ => .of_pure (by simpa using holds)
  intro value middle next stop run _
  obtain ⟨_, _, first, -, -⟩ := accepted_bind run
  unfold entryEnd at first
  rw [run_sees_bind] at first
  split at first
  · next ends => exact statementEnd_of_isEnd ends
  · exact statementEnd_of_semicolon (accepted_expectSymbol first).1

include traced

/-! ## Drift files -/

/-- A parameter of a statement is traced.

**Proof sketch.** By what is next. A default value has an expression below it, which is traced. A
typed variable may have a type below it, with or without `OR NULL` after it, which is traced as
well. -/
lemma statementParameter_traced :
    Gives site (statementParameter (rules limit depth))
      fun parameter => (Node.statementParameter parameter).Traced site := by
  have variable_type : Gives site (variableType (rules limit depth))
      fun parts => ∀ type ∈ parts.1, (Node.typeName type).Traced site := by
    unfold variableType
    refine .skip fun as => .ite ?_ (.of_pure (by simp))
    refine .bind typeName_traced fun type first => ?_
    refine .skip fun orNull => .ite ?_ ?_
    · refine .skip fun _ => .skip fun _ => ?_
      exact .of_pure (by simpa using first)
    · exact .of_pure (by simpa using first)
  refine .own statementParameter .statementParameter ?_
  unfold statementParameter
  refine .skip fun view => ?_
  split
  · unfold defaultValue
    refine .skip fun start => .skip fun _ => .skip fun _ => ?_
    refine .bind (expr_traced traced) fun value first => ?_
    refine .skip fun span => ?_
    exact .of_pure (by simpa [Node.children, ofStatementParameter] using first)
  · unfold typedVariable
    refine .skip fun start => .skip fun required => .skip fun token => ?_
    split
    · refine .skip fun _ => ?_
      refine .bind variable_type fun parts first => ?_
      refine .skip fun span => ?_
      exact .of_pure (by simpa [Node.children, ofStatementParameter] using first)
    · exact .of_unexpected _

/-- Every parameter of a statement is traced. -/
lemma statementParameters_traced :
    Gives site (statementParameters (rules limit depth))
      fun parameters => ∀ part ∈ parameters, (Node.statementParameter part).Traced site := by
  have list : Gives site
      (do
        if ← sees (·.atSymbol .rightParen) then
          return []
        else
          commaSeparated (rules limit depth).limit (statementParameter (rules limit depth)))
      fun parameters => ∀ part ∈ parameters, (Node.statementParameter part).Traced site :=
    .skip fun closed => .ite (.of_pure (by simp))
      (.commaSeparated (statementParameter_traced traced) _)
  unfold statementParameters
  refine .bind (.whenever (.parenthesized list fun _ _ => trivial)) fun parameters first => ?_
  exact .of_pure (by cases parameters <;> simp_all)

/-- A declared statement is traced where it ends: its parameters, its row class and the statement
itself. -/
lemma declaredStatement_traced :
    GivesBefore site AtStatementEnd (declaredStatement (rules limit depth))
      fun declared => (Node.declared declared).Traced site := by
  refine .own declaredStatement (fun made => .declared made.made) ?_
  unfold declaredStatement
  refine .skip fun start => .skip fun name => ?_
  refine .bind (statementParameters_traced traced) fun parameters first => ?_
  refine .skip fun resultClass => .skip fun _ => ?_
  refine .bindBefore (statement_traced traced) ?_ fun statement second => .skip fun span => ?_
  · intro statement middle declared stop run ends
    obtain ⟨-, rfl⟩ := accepted_return run
    exact ends
  · exact .of_pure (by simpa [Node.children] using ⟨first, second⟩)

/-- An entry of a drift file is traced where it ends. -/
lemma driftEntry_traced :
    GivesBefore site AtStatementEnd (driftEntry (rules limit depth))
      fun entry => entry.node.Traced site := by
  intro cursor entry stop here run ends
  have imports (part : Import) (eq : entry = .imported part) : (Node.imported part).IsRead site :=
    .imported ⟨limit, depth, cursor, stop, here, eq ▸ run, trivial⟩
  have traces : GivesBefore site AtStatementEnd (driftEntry (rules limit depth)) fun entry =>
      (∀ part, entry = .imported part → (Node.imported part).IsRead site) →
        entry.node.Traced site := by
    unfold driftEntry
    refine .skip fun view => ?_
    dsimp only
    split
    · refine .skip fun _ => .skip fun _ => .skip fun span => ?_
      refine .of_pure fun imports => ?_
      exact traced_iff.mpr ⟨imports _ rfl, allTraced_nil⟩
    · refine .ite ?_ (.ite ?_ ?_)
      · refine .skip fun _ => .skip fun _ => ?_
        refine .bindBefore (statement_traced traced) ?_ fun statement first => ?_
        · intro statement middle entry stop run ends
          obtain ⟨-, rfl⟩ := accepted_return run
          exact ends
        · exact .skip fun span => .of_pure fun _ => first
      · exact .last (declaredStatement_traced traced) fun declared first _ => first
      · exact .last (statement_traced traced) fun statement first _ => first
  exact traces here run ends imports

/-- A drift file is traced: each of its entries ends at a semicolon or at the end of the source. -/
lemma driftFile_traced :
    Gives site (driftFile (rules limit depth)) fun file => (Node.driftFile file).Traced site := by
  refine .own driftFile .driftFile ?_
  unfold driftFile
  refine .skip fun start => .skip fun _ => ?_
  refine .bind (entries_give (driftEntry_traced traced)) fun list first => .of_pure ?_
  simpa [Node.children] using first

/-! ## Statements -/

/-- A statement that is the whole source is traced. -/
lemma wholeStatement_traced :
    Gives site (wholeStatement (rules limit depth))
      fun statement => statement.node.Traced site := by
  unfold wholeStatement
  refine .bindBefore (statement_traced traced) ?_ fun statement first =>
    .skip fun _ => .skip fun _ => .of_pure first
  intro statement middle _ stop run _
  rw [run_eatSymbol_bind] at run
  split at run
  · next semicolon => exact statementEnd_of_semicolon semicolon
  · exact statementEnd_of_isEnd (accepted_expectEnd run).1

end Grammar

open Grammar SqlTree.Parser in
/-- **All nodes of whatever is accepted as a whole source are traced.** -/
theorem Entry.parser_traced (entry : Entry) (site : Site) (limit depth : Nat) :
    Gives site (entry.parser (rules limit depth))
      fun tree => ∀ root ∈ entry.roots tree, root.Traced site := by
  have traced := rules_traced site limit depth
  cases entry with
  | statement =>
    exact (wholeStatement_traced traced).mono fun statement first root mem => by
      obtain rfl := List.mem_singleton.mp mem
      exact first
  | expression =>
    have whole : Gives site (wholeExpression (rules limit depth))
        fun expr => (Node.expr expr).Traced site := by
      refine .bind (expr_traced traced) fun expr first => ?_
      refine .skip fun _ => ?_
      exact .of_pure first
    exact whole.mono fun expr first root mem => by
      obtain rfl := List.mem_singleton.mp mem
      exact first
  | script =>
    refine (entries_give (statement_traced traced)).mono fun list first root isRoot => ?_
    obtain ⟨statement, mem, rfl⟩ := List.mem_map.mp isRoot
    exact first statement mem
  | driftFile =>
    exact (driftFile_traced traced).mono fun file first root mem => by
      obtain rfl := List.mem_singleton.mp mem
      exact first

end SqlTree
