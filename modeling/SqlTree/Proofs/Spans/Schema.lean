import SqlTree.Proofs.Bounds.Statement
import SqlTree.Proofs.Spans.Change

set_option autoImplicit false

/-!
# Where creations are placed

The parsers of columns, of constraints and of the statements that create things read nodes that are
placed between the ends of their runs.

## Main results

* `SqlTree.Grammar.columnDefinition_places`, `SqlTree.Grammar.tableConstraint_places` — the members
  of tables.
* `SqlTree.Grammar.statement_places` — any statement.
-/

namespace SqlTree.Grammar

open SqlTree.Parser

variable {tape : Tape} {rules : Rules}

/-! ## Parts without children -/

/-- A foreign key is placed. -/
lemma foreignKey_places : (foreignKey rules).Places tape .foreignKey := by
  unfold foreignKey
  intro i
  refine .expectKeyword fun start starts => ?_
  refine .identifier fun table => ?_
  refine .skip fun columns _ _ => .skip fun actions _ _ => .skip fun deferrable _ _ => ?_
  exact .node starts (by omega) rfl (.nil (by omega))

/-- A row class is placed. -/
lemma rowClass_places : rowClass.Places tape .rowClass := by
  unfold rowClass
  intro i
  refine .here fun start starts => .require ?_
  refine .advance fun token => ?_
  refine .identifier fun name => ?_
  exact .node starts (by omega) rfl (.nil (by omega))

/-! ## Constraints of columns -/

/-- What a constraint of a column demands takes tokens, and its nodes are among them. -/
def DemandPlaced (tape : Tape) (i : Nat) (kind : ColumnConstraintKind) (j : Nat) : Prop :=
  i < j ∧ Row tape.Places i j (Node.ofColumnConstraintKind kind)

/-- `PRIMARY KEY` of a column takes tokens, and contains no nodes. -/
lemma columnPrimaryKey_leads (i : Nat) : columnPrimaryKey.Leads tape i (DemandPlaced tape i) := by
  unfold columnPrimaryKey
  refine .advance fun _ => ?_
  refine .skip fun _ _ _ => .skip fun direction _ _ => .skip fun onConflict _ _ => ?_
  refine .skip fun autoincrement _ _ => ?_
  exact .of_pure ⟨by omega, .nil (by omega)⟩

/-- `NOT NULL` takes tokens, and contains no nodes. -/
lemma notNull_leads (i : Nat) : notNull.Leads tape i (DemandPlaced tape i) := by
  unfold notNull
  refine .advance fun _ => ?_
  refine .skip fun _ _ _ => .skip fun onConflict _ _ => ?_
  exact .of_pure ⟨by omega, .nil (by omega)⟩

/-- A name in Dart takes tokens, and contains no nodes. -/
lemma dartName_leads (i : Nat) : dartName.Leads tape i (DemandPlaced tape i) := by
  unfold dartName
  refine .here fun start _ => .require ?_
  refine .advance fun _ => ?_
  refine .skip fun name _ _ => ?_
  exact .of_pure ⟨by omega, .nil (by omega)⟩

/-- A key in JSON takes tokens, and contains no nodes. -/
lemma jsonKey_leads (i : Nat) : jsonKey.Leads tape i (DemandPlaced tape i) := by
  unfold jsonKey
  refine .here fun start _ => .require ?_
  refine .advance fun _ => ?_
  refine .skip fun _ _ _ => .skip fun name _ _ => ?_
  exact .of_pure ⟨by omega, .nil (by omega)⟩

/-- `MAPPED BY` takes tokens. -/
lemma mappedBy_leads (i : Nat) : mappedBy.Leads tape i fun _ j => i < j := by
  unfold mappedBy
  refine .here fun start _ => .require ?_
  refine .advance fun _ => ?_
  exact (Leads.forward _).mono fun _ _ le _ => le

section

variable (laid : rules.Laid tape)

include laid

/-- A generated column takes tokens, and its expression is placed among them. -/
lemma generatedBy_leads (start : Span) (always : Bool) (i : Nat) :
    (generatedBy rules start always).Leads tape i (DemandPlaced tape i) := by
  unfold generatedBy
  refine .require (.parenthesized ?_)
  refine (laid.expr _).mono fun _ _ _ value => ?_
  refine .skip fun storage _ _ => ?_
  have lt := value.lt
  exact .of_pure ⟨by omega, value.row.mono (by omega) (by omega)⟩

/-- The nodes of a constraint of a column are placed among the tokens it takes.

**Proof sketch.** By the keyword that is next. Each case takes it, perhaps after a demand, and then
reads what follows. The constraints with nodes are those with an expression or a foreign key, and
these are placed by the lemmas about them. -/
lemma columnConstraintKind_leads (start : Span) (i : Nat) :
    (columnConstraintKind rules start).Leads tape i fun kind j =>
      kind.elim True (DemandPlaced tape i · j) := by
  refine .view ?_
  split
  · exact (columnPrimaryKey_leads i).bind fun _ _ _ placed => .of_pure placed
  · exact (notNull_leads i).bind fun _ _ _ placed => .of_pure placed
  · exact .advance fun _ => .of_pure ⟨by omega, .nil (by omega)⟩
  · refine .advance fun _ => ?_
    refine .skip fun onConflict _ _ => ?_
    exact .of_pure ⟨by omega, .nil (by omega)⟩
  · exact .advance fun _ => .parenthesized <| (laid.expr _).mono fun _ _ le condition =>
      .of_pure ⟨by omega, condition.row.mono (by omega) (by omega)⟩
  · refine .advance fun _ => ?_
    refine (laid.operators _ _).bind fun operand _ le value => ?_
    exact .of_pure ⟨by omega, value.row.mono (by omega) (by omega)⟩
  · refine .advance fun _ => ?_
    refine .skip fun name _ _ => ?_
    exact .of_pure ⟨by omega, .nil (by omega)⟩
  · exact (foreignKey_places i).bind fun _ _ _ key => .of_pure ⟨key.lt, key.row⟩
  · refine .ite ?_ trivial
    refine .advance fun _ => ?_
    refine .skip fun _ _ _ => ?_
    refine .expectKeyword fun _ _ => ?_
    refine (generatedBy_leads laid start true _).bind fun generated _ _ ⟨_, row⟩ => ?_
    exact .of_pure ⟨by omega, row.mono (by omega) (Nat.le_refl _)⟩
  · refine .ite ?_ ?_
    · refine .advance fun _ => ?_
      refine (generatedBy_leads laid start false _).bind fun generated _ _ ⟨_, row⟩ => ?_
      exact .of_pure ⟨by omega, row.mono (by omega) (Nat.le_refl _)⟩
    · exact (dartName_leads i).bind fun _ _ _ placed => .of_pure placed
  · refine .ite ?_ trivial
    exact (mappedBy_leads i).bind fun _ _ _ lt => .of_pure ⟨lt, .nil (by omega)⟩
  · refine .ite ?_ trivial
    exact (jsonKey_leads i).bind fun _ _ _ placed => .of_pure placed
  · trivial

/-- A turn of the loop over the constraints of a column lays out its node, if it reads one. -/
lemma nextColumnConstraint_lays :
    (nextColumnConstraint rules).Lays tape (Node.maybe .columnConstraint) := by
  intro i
  refine .here fun start starts => ?_
  refine .skip fun name _ _ => ?_
  refine (columnConstraintKind_leads laid _ _).bind fun kind _ _ placed => ?_
  obtain _ | kind := kind
  · exact .ite trivial (.of_pure (.nil (by omega)))
  · obtain ⟨lt, row⟩ := placed
    exact .returns starts (by omega) <| Tape.Places.row <|
      .of_row (by omega) rfl (row.mono (by omega) (Nat.le_refl _))

/-- A column is placed, and its type before its constraints. -/
lemma columnDefinition_places : (columnDefinition rules).Places tape .columnDefinition := by
  unfold columnDefinition
  intro i
  refine .here fun start starts => ?_
  refine .identifier fun name => ?_
  refine ((typeName_places _).whenever _).bind fun _ _ _ type => ?_
  refine (Places.many _ (nextColumnConstraint_lays laid) _).bind fun _ _ _ constraints => ?_
  exact .node starts (by omega) rfl ((type.append constraints).mono (by omega) (Nat.le_refl _))

/-! ## Constraints of tables -/

/-- The nodes of a constraint of a table are placed among the tokens it takes. -/
lemma tableConstraintKind_leads (i : Nat) : (tableConstraintKind rules).Leads tape i
    fun kind j => i < j ∧ Row tape.Places i j (Node.ofTableConstraintKind kind) := by
  have columns := (indexedColumns_lays laid).parenthesized
  refine .ifKeyword ?_ <| .ifKeyword ?_ <| .ifKeyword ?_ <| .ifKeyword ?_ trivial
  · refine .expectKeyword fun _ _ => ?_
    refine (columns _).bind fun columns _ _ row => ?_
    refine .skip fun onConflict _ _ => ?_
    exact .of_pure ⟨by omega, row.mono (by omega) (by omega)⟩
  · refine (columns _).bind fun columns _ _ row => ?_
    refine .skip fun onConflict _ _ => ?_
    exact .of_pure ⟨by omega, row.mono (by omega) (by omega)⟩
  · exact (laid.expr.parenthesized _).bind fun _ _ _ row =>
      .of_pure ⟨by omega, row.mono (by omega) (by omega)⟩
  · refine .expectKeyword fun _ _ => ?_
    refine .skip fun columns _ _ => ?_
    refine (foreignKey_places _).bind fun _ _ _ key => ?_
    exact .of_pure ⟨by omega, key.row.mono (by omega) (by omega)⟩

/-- A constraint of a table is placed. -/
lemma tableConstraint_places : (tableConstraint rules).Places tape .tableConstraint := by
  unfold tableConstraint
  intro i
  refine .here fun start starts => ?_
  refine .skip fun name _ _ => ?_
  refine (tableConstraintKind_leads laid _).bind fun kind _ _ ⟨_, row⟩ => ?_
  exact .node starts (by omega) rfl (row.mono (by omega) (Nat.le_refl _))

/-! ## Tables -/

/-- The nodes of the members of a table that have been read. -/
def memberNodes (members : TableMembers) : List Node :=
  Node.each .columnDefinition members.columns.reverse ++
    Node.each .tableConstraint members.constraints.reverse

/-- A further member of a table is placed after those before it. Columns come before constraints, so
their nodes are in the order of the source. -/
lemma tableMember_leads {members : TableMembers} {i j k : Nat} (le : j ≤ k)
    (row : Row tape.Places i j (memberNodes members)) :
    (tableMember rules members).Leads tape k fun members l =>
      Row tape.Places i l (memberNodes members) := by
  obtain ⟨columns, constraints⟩ := members
  refine .ifSees ?_ ?_
  · refine (tableConstraint_places laid _).bind fun constraint _ _ placed => .of_pure ?_
    simpa [memberNodes, Node.each] using
      row.append (placed.row.mono (by omega : j ≤ k) (Nat.le_refl _))
  · dsimp only
    split
    · next none =>
      -- no column follows a constraint
      obtain rfl := List.isEmpty_iff.mp none
      refine (columnDefinition_places laid _).bind fun column _ _ placed => .of_pure ?_
      simpa [memberNodes, Node.each] using
        row.append (placed.row.mono (by omega : j ≤ k) (Nat.le_refl _))
    · trivial

/-- The members of a table are laid out in order. -/
lemma tableMembers_lays : (tableMembers rules).Lays tape memberNodes := by
  intro i
  -- the members that have been read are placed one after the other
  have turn (members : TableMembers) (j : Nat) (row : Row tape.Places i j (memberNodes members)) :
      (do if ← eatSymbol .comma then return some (← tableMember rules members) else return none :
        Parser (Option TableMembers)).Leads tape j fun next k =>
          next.elim (Row tape.Places i k (memberNodes members))
            fun members => Row tape.Places i k (memberNodes members) := by
    refine .ifSymbol ?_ (.of_pure row)
    exact (tableMember_leads laid (Nat.le_succ _) row).bind fun _ _ _ row => .of_pure row
  unfold tableMembers
  refine (tableMember_leads laid (Nat.le_refl i) (.nil (Nat.le_refl _))).bind fun _ _ _ first => ?_
  exact .iterate (fun members j => Row tape.Places i j (memberNodes members)) _ turn first

/-- The definition of a table lays out its members and its row class. -/
lemma tableDefinition_lays : (tableDefinition rules).Lays tape
    Node.ofTableDefinition := by
  unfold tableDefinition
  intro i
  refine ((tableMembers_lays laid).parenthesized _).bind fun _ _ _ members => .ite trivial ?_
  refine .skip fun options _ _ => ?_
  refine (rowClass_places.whenever _).bind fun _ _ _ rowClass => ?_
  exact .of_pure (members.append (rowClass.mono (by omega) (Nat.le_refl _)))

/-! ## Statements after their first words -/

section

variable {start : Span} {i j : Nat} (starts : tape.Starts i start) (before : i < j)

include starts before

/-- The creation of a table is placed, from `CREATE` on. -/
lemma createTable_leads (temporary : Bool) : (createTable rules start temporary).Leads tape j
    fun value k => tape.Places i k (.createTable value) := by
  unfold createTable
  refine .expectKeyword fun _ _ => ?_
  refine .skip fun ifNotExists _ _ => .skip fun names _ _ => ?_
  refine .ifKeyword ?_ ?_
  · refine (laid.query _).bind fun _ _ _ rows => ?_
    exact .node starts (by omega) rfl (rows.row.mono (by omega) (Nat.le_refl _))
  · refine (tableDefinition_lays laid _).bind fun _ _ _ members => ?_
    refine .node starts (by omega) rfl ?_
    rw [Node.children_createTable_of_asSelect rfl]
    exact members.mono (by omega) (Nat.le_refl _)

omit laid in
/-- The creation of a virtual table is placed, from `CREATE` on. -/
lemma createVirtualTable_leads : (createVirtualTable rules start).Leads tape j
    fun value k => tape.Places i k (.createVirtualTable value) := by
  unfold createVirtualTable
  refine .skip fun _ _ _ => .skip fun ifNotExists _ _ => .skip fun names _ _ => ?_
  refine .skip fun _ _ _ => .skip fun module _ _ => .skip fun arguments _ _ => ?_
  exact .node starts (by omega) rfl (.nil (by omega))

/-- The creation of a view is placed, from `CREATE` on. -/
lemma createView_leads (temporary : Bool) : (createView rules start temporary).Leads tape j
    fun value k => tape.Places i k (.createView value) := by
  unfold createView
  refine .skip fun _ _ _ => .skip fun ifNotExists _ _ => .skip fun names _ _ => ?_
  refine .skip fun columns _ _ => ?_
  refine (rowClass_places.whenever _).bind fun _ _ _ rowClass => ?_
  refine .expectKeyword fun _ _ => ?_
  refine (laid.query _).bind fun _ _ _ query => ?_
  exact .node starts (by omega) rfl
    ((rowClass.append (query.row.mono (by omega) (Nat.le_refl _))).mono (by omega) (Nat.le_refl _))

/-- The creation of an index is placed, from `CREATE` on. -/
lemma createIndex_leads : (createIndex rules start).Leads tape j
    fun value k => tape.Places i k (.createIndex value) := by
  unfold createIndex
  refine .skip fun unique _ _ => .skip fun _ _ _ => .skip fun ifNotExists _ _ => ?_
  refine .skip fun names _ _ => .skip fun _ _ _ => .skip fun table _ _ => ?_
  refine ((indexedColumns_lays laid).parenthesized _).bind fun _ _ _ columns => ?_
  refine (laid.expr.afterKeyword _).bind fun _ _ _ filter => ?_
  exact .node starts (by omega) rfl ((columns.append filter).mono (by omega) (Nat.le_refl _))

omit starts before in
/-- A statement of a trigger lays out its node. The semicolon after it is not part of it. -/
lemma triggerStatement_places : (triggerStatement rules).Lays tape
    fun statement => [statement.node] := by
  unfold triggerStatement
  intro i
  refine (dataStatement_places laid _ _).bind fun _ _ _ statement => ?_
  refine .expectSymbol fun _ _ => ?_
  exact .of_pure (statement.row.mono (Nat.le_refl _) (by omega))

omit starts before in
/-- The body of a trigger lays out its statements. -/
lemma triggerBody_lays : (triggerBody rules).Lays tape (Node.each Statement.node) := by
  intro i
  have turn : Lays tape (do
      if ← eatKeyword .END then
        return none
      else
        return some (← triggerStatement rules)) (Node.maybe Statement.node) := by
    intro i
    refine .ifKeyword (.of_pure (.nil (by omega))) ?_
    exact (triggerStatement_places laid _).bind fun _ _ _ row => .of_pure row
  refine .expectKeyword fun _ _ => ?_
  refine (triggerStatement_places laid _).bind fun _ _ _ first => ?_
  refine (Places.many _ turn _).bind fun _ _ _ rest => ?_
  exact .of_pure ((first.append rest).mono (by omega) (Nat.le_refl _))

/-- The creation of a trigger is placed, from `CREATE` on. -/
lemma createTrigger_leads (temporary : Bool) : (createTrigger rules start temporary).Leads tape j
    fun value k => tape.Places i k (.createTrigger value) := by
  unfold createTrigger
  refine .skip fun _ _ _ => .skip fun ifNotExists _ _ => .skip fun names _ _ => ?_
  refine .skip fun timing _ _ => .skip fun event _ _ => .skip fun _ _ _ => .skip fun table _ _ => ?_
  refine .skip fun forEachRow _ _ => ?_
  refine (laid.expr.afterKeyword _).bind fun _ _ _ condition => ?_
  refine (triggerBody_lays laid _).bind fun _ _ _ body => ?_
  exact .node starts (by omega) rfl ((condition.append body).mono (by omega) (Nat.le_refl _))

end

/-! ## Statements -/

/-- Whatever is created is placed, from `CREATE` on. -/
lemma created_leads {start place : Span} {i j : Nat} (starts : tape.Starts i start) (lt : i < j)
    (temporary : Bool) : (created rules start place temporary).Leads tape j fun value k =>
      tape.Places i k value.node := by
  refine .current ?_
  split
  · exact (createTable_leads laid starts lt _).bind fun _ _ _ placed => .of_pure placed
  · exact (createView_leads laid starts lt _).bind fun _ _ _ placed => .of_pure placed
  · exact (createTrigger_leads laid starts lt _).bind fun _ _ _ placed => .of_pure placed
  · refine .ite trivial ?_
    exact (createVirtualTable_leads starts lt).bind fun _ _ _ placed => .of_pure placed
  · refine .ite trivial ?_
    exact (createIndex_leads laid starts lt).bind fun _ _ _ placed => .of_pure placed
  · refine .ite trivial ?_
    exact (createIndex_leads laid starts lt).bind fun _ _ _ placed => .of_pure placed
  · trivial

/-- A creation is placed. -/
lemma creation_places : (creation rules).Places tape Statement.node := by
  intro i
  rw [creation_eq]
  refine .expectKeyword fun start starts => ?_
  refine .here fun place _ => ?_
  refine .ifKeyword (created_leads laid starts (by omega) _) ?_
  refine .skip fun temporary _ _ => ?_
  exact created_leads laid starts (by omega) _

/-- **Statements are placed between the ends of their runs.** -/
theorem statement_places : (statement rules).Places tape Statement.node := by
  unfold statement
  intro i
  refine .ifSees (creation_places laid i) ?_
  exact (dataStatement_places laid _ i).bind fun _ _ _ placed => .of_pure placed

end

end SqlTree.Grammar
